import CellMachine.Fault

/-!
# Events

What a computation notes while it works, as data. `Event.text` is the wording; every event is of
level `debug`. The commands add lines of level `info` (`LogLine`), one for their banner and one for
how they ended.

An event has integers of any size, and as data it can always be noted. Under a digit limit it is
noted only if the integers in it can be written (`DigitLimit.notes`), whether or not its line will
be shown.
-/

namespace CellMachine

/-- How much a log line matters. -/
inductive Level where
  /-- Shown on request. -/
  | debug
  /-- Always shown. -/
  | info
  deriving DecidableEq, Repr

/-- The name of a level in front of a log line. -/
def Level.label : Level → String
  | .debug => "DEBUG"
  | .info => "INFO"

/-- The registers of a machine as a trace shows them. -/
structure Registers where
  /-- The instruction pointer. -/
  ip : Int
  /-- The relative base. -/
  base : Int
  /-- The cell at the instruction pointer, if there is one. -/
  word : Option Int
  /-- How many input values wait. -/
  waiting : Nat
  /-- How many output values wait. -/
  emitted : Nat
  deriving DecidableEq, Repr

/-- The registers on one line. -/
def Registers.text (r : Registers) : String :=
  s!"IP:{r.ip} RB:{r.base} W:{Fault.wordText r.word} IN:{r.waiting} OUT:{r.emitted}"

/-- One thing worth noting. -/
inductive Event where
  /-- A program file is about to be read. -/
  | loading (path : String)
  /-- A program text was read in full. -/
  | parsed (cells : Nat)
  /-- A cell of an image is overwritten. -/
  | patching (address : Nat) (value : Int)
  /-- A cell beyond the image is written for the first time. -/
  | extending (address : Nat)
  /-- An instruction waits for input. -/
  | suspended (ip : Int)
  /-- A machine stopped. -/
  | halted (ip : Int)
  /-- The registers before an instruction. -/
  | registers (registers : Registers)
  /-- A ring of machines came to its end after so many full rounds. -/
  | settled (rounds : Nat)
  /-- An order of phases gave this signal. -/
  | tried (order : List Int) (signal : Int)
  deriving DecidableEq, Repr

/-- An order of phases between parentheses; a single phase is followed by a comma. -/
def orderText : List Int → String
  | [phase] => s!"({phase},)"
  | order => "(" ++ ", ".intercalate (order.map toString) ++ ")"

/-- The wording of an event. -/
def Event.text : Event → String
  | .loading path => s!"Loading program {path}"
  | .parsed cells => s!"Parsed image of {cells} cells"
  | .patching address value => s!"Patching [{address}] = {value}"
  | .extending address => s!"Extending memory at {address}"
  | .suspended ip => s!"Suspended for input at {ip}"
  | .halted ip => s!"Halted at {ip}"
  | .registers r => r.text
  | .settled rounds => s!"Feedback ring settled after {rounds} rounds"
  | .tried order signal => s!"Phases {orderText order} -> {signal}"

/-- The integers in the wording of an event, counts apart. -/
def Event.integers : Event → List Int
  | .loading _ | .parsed _ | .settled _ => []
  | .patching address value => [address, value]
  | .extending address => [address]
  | .suspended ip | .halted ip => [ip]
  | .registers r => r.ip :: r.base :: r.word.toList
  | .tried order signal => order ++ [signal]

/-- Is this event noted? -/
def DigitLimit.notes (limit : DigitLimit) (e : Event) : Bool := e.integers.all limit.writes

/-- One line of a log. -/
structure LogLine where
  /-- How much it matters. -/
  level : Level
  /-- What it says. -/
  text : String
  deriving DecidableEq, Repr

/-- The line an event leaves in a log. -/
def Event.line (e : Event) : LogLine := ⟨.debug, e.text⟩

@[simp] theorem DigitLimit.notes_off (e : Event) : off.notes e = true := by
  simp [notes]

end CellMachine
