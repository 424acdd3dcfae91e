import CellMachine.Proofs.Reference.Word
import CellMachine.Fault

/-!
# CellMachine.Proofs.Reference.Machine

**The machine as one would write it on paper.** Its memory is a function from addresses to integers,
its channels are lists, and a word is decoded from its decimal text. A step decodes the word at the
instruction pointer, resolves one operand after another by the table of modes
(`State.operand`), and then does what the table of operations says (`State.execute`).

Nothing here knows of images, sparse cells, effects, statuses or logs. `Reaches` is the run of this
machine: step after step until it halts, waits for input or faults.
-/

namespace CellMachine.Reference

/-- The state of the machine. -/
structure State where
  memory : Nat → Int
  ip : Int
  base : Int
  /-- Front first. -/
  input : List Int
  /-- Front first. -/
  output : List Int

/-- What a step comes to. -/
inductive Result where
  | next (s : State)
  | halt
  /-- The input is empty. -/
  | wait
  | fault (kind : Fault.Kind)

/-- The operands of an operation, by what they are for. -/
def intents : Nat → Option (List Intent)
  | 1 | 2 | 7 | 8 => some [.read, .read, .write]
  | 3 => some [.write]
  | 4 | 9 => some [.read]
  | 5 | 6 => some [.read, .read]
  | 99 => some []
  | _ => none

namespace State

/-- An address: there is none below zero. -/
def place (a : Int) : Except Fault.Kind Int :=
  if a < 0 then .error .negativeAddress else .ok a

/-- The cell at an address. -/
def cell (s : State) (a : Int) : Except Fault.Kind Int :=
  (place a).map fun a => s.memory a.toNat

/-- The table of modes: the operand in a slot. -/
def operand (s : State) (slot : Nat) : Mode → Intent → Except Fault.Kind Int
  | .position, .read => do s.cell (← s.cell (s.ip + 1 + slot))
  | .position, .write => do place (← s.cell (s.ip + 1 + slot))
  | .immediate, .read => s.cell (s.ip + 1 + slot)
  | .immediate, .write => .error .writeMode
  | .relative, .read => do s.cell (s.base + (← s.cell (s.ip + 1 + slot)))
  | .relative, .write => do place (s.base + (← s.cell (s.ip + 1 + slot)))

/-- The modes of a word in a number of slots, from a slot on. -/
def modes (word slot : Nat) : Nat → Except Fault.Kind (List Mode)
  | 0 => .ok []
  | count + 1 => do
    let mode ← (mode? word slot).elim (.error .decode) .ok
    let rest ← modes word (slot + 1) count
    return mode :: rest

/-- Operands resolved in the order of their slots. -/
def operands (s : State) (slot : Nat) : List (Mode × Intent) → Except Fault.Kind (List Int)
  | [] => .ok []
  | (mode, intent) :: rest => do
    let value ← s.operand slot mode intent
    let values ← s.operands (slot + 1) rest
    return value :: values

/-- The state after a value was stored. -/
def store (s : State) (a v : Int) : State :=
  { s with memory := fun b => if a.toNat = b then v else s.memory b }

/-- The state with the instruction pointer moved on. -/
def advance (s : State) (width : Int) : State := { s with ip := s.ip + width }

/-- The table of operations. -/
def execute (s : State) : Nat → List Int → Result
  | 1, [a, b, c] => .next ((s.store c (a + b)).advance 4)
  | 2, [a, b, c] => .next ((s.store c (a * b)).advance 4)
  | 3, [a] =>
    match s.input with
    | [] => .wait
    | v :: rest => .next (({ s with input := rest }.store a v).advance 2)
  | 4, [a] => .next ({ s with output := s.output ++ [a] }.advance 2)
  | 5, [a, b] => .next (if a ≠ 0 then { s with ip := b } else s.advance 3)
  | 6, [a, b] => .next (if a = 0 then { s with ip := b } else s.advance 3)
  | 7, [a, b, c] => .next ((s.store c (if a < b then 1 else 0)).advance 4)
  | 8, [a, b, c] => .next ((s.store c (if a = b then 1 else 0)).advance 4)
  | 9, [a] => .next ({ s with base := s.base + a }.advance 2)
  | 99, [] => .halt
  | _, _ => .fault .decode

/-- Decodes a word and resolves its operands. -/
def decode (s : State) (word : Int) : Except Fault.Kind (Nat × List Int) :=
  if word < 0 then .error .decode
  else
    match intents (opcode word.toNat) with
    | none => .error .decode
    | some intents => do
      let modes ← modes word.toNat 0 intents.length
      let operands ← s.operands 0 (modes.zip intents)
      return (opcode word.toNat, operands)

/-- One step. -/
def step (s : State) : Result :=
  match s.cell s.ip >>= s.decode with
  | .error kind => .fault kind
  | .ok (op, operands) => s.execute op operands

end State

/-- How a run of the machine ends. -/
inductive Ending where
  /-- At a word whose operation is to stop. -/
  | halted
  /-- At an input instruction on an empty input queue. -/
  | waiting
  /-- At a fault. -/
  | faulted (kind : Fault.Kind)

/-- Step after step, a run ends, in this state. -/
inductive Reaches : State → Ending → State → Prop where
  | halt {s : State} : s.step = .halt → Reaches s .halted s
  | wait {s : State} : s.step = .wait → Reaches s .waiting s
  | fault {s : State} {kind : Fault.Kind} : s.step = .fault kind → Reaches s (.faulted kind) s
  | next {s s' t : State} {ending : Ending} : s.step = .next s' → Reaches s' ending t →
      Reaches s ending t

end CellMachine.Reference
