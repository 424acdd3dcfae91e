import CellMachine.Machine.Basic
import CellMachine.Instruction.Decode

/-!
# Operands

The operand in slot `i` of the instruction at `ip` is the raw cell at `ip + 1 + i`. A mode turns it
into a value (`Machine.operand`) or, for a result, into an address (`Machine.target`). An immediate
operand has no address, so it cannot be a target; that is refused before any address is looked at.

`Machine.resolve` and `Machine.operands` are the same two functions chosen by intent.
-/

namespace CellMachine.Machine

/-- The raw cell of the operand in a slot. -/
def raw (m : Machine) (slot : Int) : Except Fault Int := m.memory.read (m.ip + 1 + slot)

/-- The value of the operand in a slot. -/
def operand (m : Machine) (slot : Int) (mode : Mode) : Except Fault Int := do
  let raw ← m.raw slot
  match mode with
  | .immediate => return raw
  | .position => m.memory.read raw
  | .relative => m.memory.read (m.base + raw)

/-- The address that the operand in a slot names as the place of a result. -/
def target (m : Machine) (slot : Int) (mode : Mode) : Except Fault Nat := do
  let raw ← m.raw slot
  match mode with
  | .immediate => throw { cause := .immediateTarget slot }
  | .position => Memory.address raw
  | .relative => Memory.address (m.base + raw)

/-- An operand by intent: its value, or the address of a result. -/
def resolve (m : Machine) (slot : Int) (mode : Mode) : Intent → Except Fault Int
  | .read => m.operand slot mode
  | .write => (m.target slot mode).map Int.ofNat

/-- The operands with the given modes and intents, from a slot on. -/
def resolveFrom (m : Machine) (slot : Nat) : List (Mode × Intent) → Except Fault (List Int)
  | [] => .ok []
  | (mode, intent) :: rest => do
    let value ← m.resolve slot mode intent
    let values ← m.resolveFrom (slot + 1) rest
    return value :: values

/-- The operands of a word; all modes are decoded before any operand is looked at. -/
def operands (m : Machine) (word : Int) (intents : List Intent) : Except Fault (List Int) := do
  let modes ← decodeModes word intents.length
  m.resolveFrom 0 (modes.zip intents)

end CellMachine.Machine
