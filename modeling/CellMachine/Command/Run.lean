import CellMachine.Command.Basic
import CellMachine.Image.Load
import CellMachine.Machine.Limited
import CellMachine.Report

/-!
# The command that runs a program

The program is loaded, its cells are overwritten, and a machine runs until it rests. What it
emitted is printed then, and only if it rests without a fault. So output is all or nothing, but for
a value that cannot be written: it aborts the command, and the values in front of it are printed.
-/

namespace CellMachine.Command

/-- The options of the command. -/
inductive RunKey where
  /-- Show debug lines. -/
  | verbose
  /-- Note the registers before every instruction. -/
  | trace
  /-- An input value. -/
  | input
  /-- A cell to overwrite. -/
  | patch
  /-- Text to feed. -/
  | ascii
  /-- Print text as text. -/
  | asciiOutput
  /-- Show how the command is used. -/
  | help
  deriving DecidableEq, Repr

/-- How the options are written. -/
def runSpecs : List (Options.Spec RunKey) :=
  [⟨.verbose, some 'v', "--verbose", false⟩,
    ⟨.trace, none, "--trace", false⟩,
    ⟨.input, some 'i', "--input", true⟩,
    ⟨.patch, some 'p', "--patch", true⟩,
    ⟨.ascii, none, "--ascii", true⟩,
    ⟨.asciiOutput, none, "--ascii-output", false⟩,
    ⟨.help, none, "--help", false⟩]

/-- What the command was asked to do. -/
structure RunOptions where
  /-- Show debug lines. -/
  verbose : Bool
  /-- How to run and to print. -/
  settings : Settings
  /-- The input values. -/
  inputs : List Int
  /-- The cells to overwrite, as they were written. -/
  cells : List String
  /-- Text to feed after the input values. -/
  ascii : Option String
  /-- The program file. -/
  program : FilePath
  deriving DecidableEq, Repr

namespace RunOptions

/-- What the words given to the command ask for. -/
def ofItems? (limit : DigitLimit) (items : List (Options.Item RunKey)) : Option RunOptions := do
  let program ← Options.onlyPositional? items
  let inputs ← (Options.values items .input).mapM (Text.Numeral.parse? · limit)
  return {
    verbose := Options.hasFlag items .verbose
    settings := Settings.update {}
      (some (Options.hasFlag items .trace)) (some (Options.hasFlag items .asciiOutput))
    inputs
    cells := Options.values items .patch
    ascii := Options.lastValue? items .ascii
    program := .ofString program }

/-- Reads the words given to the command, unless they ask how it is used. -/
def ofWords? (limit : DigitLimit) (words : List String) : Option RunOptions := do
  let items ← Options.read runSpecs words
  if Options.hasFlag items .help then none else ofItems? limit items

/-- All that is fed to the machine: the values, then the text with its newline. -/
def feed (o : RunOptions) : List Int :=
  o.inputs ++ (o.ascii.map fun text => Ascii.encode text true).getD []

end RunOptions

/-- Why there is nothing to print. -/
inductive RunFailure where
  /-- There is no image. -/
  | load (reason : LoadError)
  /-- A cell to overwrite makes no sense. -/
  | cells (reason : Cells.Error)
  /-- The machine faulted. -/
  | fault (fault : Fault)
  /-- Something that was to be noted was not written. -/
  | refused (refusal : DigitLimit.Refusal)
  /-- The machine did not come to rest within its fuel. -/
  | unfinished
  deriving DecidableEq, Repr

/-- How the command ends. -/
inductive RunExit where
  /-- The machine stopped. -/
  | halted
  /-- The machine waits for input. -/
  | suspended
  /-- The user ended the command. -/
  | interrupted
  /-- There is no image. -/
  | loadError
  /-- The machine faulted. -/
  | fault
  deriving DecidableEq, Repr

/-- The exit code of an ending. -/
def RunExit.code : RunExit → Nat
  | .halted => 0
  | .suspended => 1
  | .interrupted => 3
  | .loadError => 4
  | .fault => 100

/-- Every ending, in the order of the codes. -/
def RunExit.all : List RunExit := [.halted, .suspended, .interrupted, .loadError, .fault]

/-- What came of a run that has to write down its notes. -/
def runOutcome (run : Limited (Except Fault Status)) : Except RunFailure Machine :=
  match run.outcome with
  | .error refusal => .error (.refused refusal)
  | .ok (.error fault) => .error (.fault fault)
  | .ok (.ok _) => .ok run.machine

/-- Loads a machine with an image and runs it once. -/
def runImage (limit : DigitLimit) (fuel : Nat) (image : Image) (input : List Int)
    (settings : Settings) : Logged RunFailure Machine :=
  match (Machine.load image input settings.trace).runWithin limit fuel with
  | none => .fail .unfinished
  | some run => ⟨run.log, runOutcome run⟩

namespace RunOptions

/-- The work of the command: the machine at rest. -/
def execute (o : RunOptions) (limits : Limits) (fuel : Nat) (content : Except ReadError ByteArray) :
    Logged RunFailure Machine := do
  let image ← (Image.load limits.digits o.program content).mapError RunFailure.load
  let cells ← Logged.ofExcept ((Cells.parse o.cells limits.digits).mapError RunFailure.cells)
  let image ← (Image.patch limits.room image cells).mapError RunFailure.load
  runImage limits.digits fuel image o.feed o.settings

/-- All that the command logs, given what was noted and what it says in the end. -/
def log (o : RunOptions) (events : List Event) (ending : List String) : List LogLine :=
  logLines (o.verbose || o.settings.trace) "INTCODE" events ending

/-- How the command ends with a machine that rests, having noted these events. -/
def report (o : RunOptions) (limit : DigitLimit) (events : List Event) (machine : Machine) :
    Result :=
  let printed := Report.print limit o.settings machine.output.queue
  match printed.refusal with
  | some refusal => .aborted (.refused refusal) printed.text (o.log events [])
  | none =>
    if machine.status = .suspended then
      conclude limit (o.log events) RunExit.suspended.code printed.text
        [s!"Execution suspended waiting for input at {machine.ip}"] [machine.ip]
    else
      conclude limit (o.log events) RunExit.halted.code printed.text
        [s!"Execution halted gracefully after {machine.steps} steps"] []

/-- The command, given what reading the program file gave. -/
def result (o : RunOptions) (limits : Limits) (fuel : Nat) (content : Except ReadError ByteArray) :
    Result :=
  let work := (o.execute limits fuel content).within limits.digits
    (.refused (.write limits.digits))
  match work.outcome with
  | .error (.cells _) => .usageError
  | .error .unfinished => .unfinished
  | .error (.refused refusal) => .aborted (.refused refusal) "" (o.log work.log [])
  | .error (.load reason) =>
    if reason.isReported then
      conclude limits.digits (o.log work.log) RunExit.loadError.code ""
        [s!"Program could not be loaded: {reason.message}"] reason.integers
    else .aborted (.load reason) "" (o.log work.log [])
  | .error (.fault fault) =>
    conclude limits.digits (o.log work.log) RunExit.fault.code ""
      [s!"Execution halted on fault {fault.text}"] fault.integers
  | .ok machine => o.report limits.digits work.log machine

end RunOptions

/-- The command, given its words and what reading a program file gives. -/
def run (limits : Limits) (fuel : Nat) (words : List String)
    (read : FilePath → Except ReadError ByteArray) : Result :=
  match Options.read runSpecs words with
  | none => .usageError
  | some items =>
    if Options.hasFlag items .help then .help
    else
      match RunOptions.ofItems? limits.digits items with
      | none => .usageError
      | some o => o.result limits fuel (read o.program)

end CellMachine.Command
