/-!
# Instructions

An instruction names an operation and, for each of its operands, how the operand is addressed.
This module holds the instruction set as data: the operations with their codes, the addressing modes
with their digits, and instructions with a mode per operand. How a word encodes an instruction is the
subject of `CellMachine.Instruction.Decode`.
-/

namespace CellMachine

/-- How the raw cell of an operand is turned into its value or its address. -/
inductive Mode where
  /-- The raw cell is an address. -/
  | position
  /-- The raw cell is the value. -/
  | immediate
  /-- The raw cell is an offset from the relative base. -/
  | relative
  deriving DecidableEq, Repr

/-- The digit that stands for a mode. -/
def Mode.digit : Mode → Nat
  | .position => 0
  | .immediate => 1
  | .relative => 2

/-- The mode a digit stands for. -/
def Mode.ofDigit? : Nat → Option Mode
  | 0 => some .position
  | 1 => some .immediate
  | 2 => some .relative
  | _ => none

/-- What an operand is for. -/
inductive Intent where
  /-- Its value is used. -/
  | read
  /-- A value is stored where it points. -/
  | write
  deriving DecidableEq, Repr

/-- The operations of the machine. -/
inductive Opcode where
  /-- Store the sum of two values. -/
  | add
  /-- Store the product of two values. -/
  | multiply
  /-- Store the next input value; wait if there is none. -/
  | input
  /-- Emit a value. -/
  | output
  /-- Go elsewhere if a value is not zero. -/
  | jumpNonzero
  /-- Go elsewhere if a value is zero. -/
  | jumpZero
  /-- Store one if the first value is below the second, else zero. -/
  | lessThan
  /-- Store one if two values are equal, else zero. -/
  | equals
  /-- Move the relative base. -/
  | adjustBase
  /-- Stop. -/
  | halt
  deriving DecidableEq, Repr

/-- The code of an operation: the last two digits of its words. -/
def Opcode.code : Opcode → Nat
  | .add => 1
  | .multiply => 2
  | .input => 3
  | .output => 4
  | .jumpNonzero => 5
  | .jumpZero => 6
  | .lessThan => 7
  | .equals => 8
  | .adjustBase => 9
  | .halt => 99

/-- The operation with this code. -/
def Opcode.ofCode? : Nat → Option Opcode
  | 1 => some .add
  | 2 => some .multiply
  | 3 => some .input
  | 4 => some .output
  | 5 => some .jumpNonzero
  | 6 => some .jumpZero
  | 7 => some .lessThan
  | 8 => some .equals
  | 9 => some .adjustBase
  | 99 => some .halt
  | _ => none

@[simp] theorem Mode.ofDigit?_digit (mode : Mode) : Mode.ofDigit? mode.digit = some mode := by
  cases mode <;> rfl

@[simp] theorem Opcode.ofCode?_code (op : Opcode) : Opcode.ofCode? op.code = some op := by
  cases op <;> rfl

/-- An operation has one code only. -/
theorem Opcode.code_of_ofCode? {c : Nat} {op : Opcode} (h : Opcode.ofCode? c = some op) :
    c = op.code := by
  unfold Opcode.ofCode? at h
  split at h <;> cases h <;> rfl

theorem Opcode.ofCode?_eq_none_iff {c : Nat} :
    Opcode.ofCode? c = none ↔ ¬(1 ≤ c ∧ c ≤ 9 ∨ c = 99) := by
  unfold Opcode.ofCode?
  split
  case h_11 => simp_all; omega
  all_goals simp

/-- An operation that stores a function of two values. -/
inductive Computation where
  /-- The sum. -/
  | add
  /-- The product. -/
  | multiply
  /-- One if the first is below the second, else zero. -/
  | lessThan
  /-- One if they are equal, else zero. -/
  | equals
  deriving DecidableEq, Repr

/-- The value a computation stores. -/
def Computation.eval : Computation → Int → Int → Int
  | .add, a, b => a + b
  | .multiply, a, b => a * b
  | .lessThan, a, b => if a < b then 1 else 0
  | .equals, a, b => if a = b then 1 else 0

/-- When a jump is taken. -/
inductive Condition where
  /-- If the value is not zero. -/
  | nonzero
  /-- If the value is zero. -/
  | zero
  deriving DecidableEq, Repr

/-- Does the condition hold of a value? -/
def Condition.holds : Condition → Int → Bool
  | .nonzero, a => decide (a ≠ 0)
  | .zero, a => decide (a = 0)

/-- An operation with the mode of each of its operands, in slot order. -/
inductive Instruction where
  /-- Stores a function of two values. -/
  | compute (op : Computation) (x y dest : Mode)
  /-- Stores the next input value. -/
  | input (dest : Mode)
  /-- Emits a value. -/
  | output (x : Mode)
  /-- Goes to the second operand if the condition holds of the first. -/
  | jump (cond : Condition) (x dest : Mode)
  /-- Moves the relative base by a value. -/
  | adjustBase (x : Mode)
  /-- Stops. -/
  | halt
  deriving DecidableEq, Repr

/-- The operation of an instruction. -/
def Instruction.opcode : Instruction → Opcode
  | .compute .add .. => .add
  | .compute .multiply .. => .multiply
  | .compute .lessThan .. => .lessThan
  | .compute .equals .. => .equals
  | .input _ => .input
  | .output _ => .output
  | .jump .nonzero .. => .jumpNonzero
  | .jump .zero .. => .jumpZero
  | .adjustBase _ => .adjustBase
  | .halt => .halt

/-- The modes of an instruction's operands, in slot order. -/
def Instruction.modes : Instruction → List Mode
  | .compute _ x y dest => [x, y, dest]
  | .input dest => [dest]
  | .output x => [x]
  | .jump _ x dest => [x, dest]
  | .adjustBase x => [x]
  | .halt => []

end CellMachine
