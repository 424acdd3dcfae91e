import CellMachine.Fault
import CellMachine.Instruction.Basic

/-!
# Decoding instruction words

A word is a decimal number: its last two digits are the code of the operation, and the digits
before them, read from right to left, are the modes of the operands in slots 0, 1, 2 and so on.
Digits that are not written are zeros, hence position mode. Digits beyond the operands of the
operation do not matter.

All faults of decoding arise here: a word below zero, a code that no operation has, a digit that no
mode has. Modes are decoded in slot order, so the least significant bad digit is the one named.
-/

namespace CellMachine

/-- The number a word stands for: no instruction is below zero. -/
def wordNumber (word : Int) : Except Fault Nat :=
  if word < 0 then .error { cause := .negativeWord word } else .ok word.toNat

/-- The code in a word: its last two digits. -/
def codeOf (n : Nat) : Nat := n % 100

/-- The mode digit for a slot. -/
def modeDigit (n slot : Nat) : Nat := n / 100 / Nat.pow 10 slot % 10

/-- The mode of the operand in a slot. -/
def modeAt (n slot : Nat) : Except Fault Mode :=
  match Mode.ofDigit? (modeDigit n slot) with
  | some mode => .ok mode
  | none => .error { cause := .unknownMode (modeDigit n slot) }

/-- The modes of the operands in `count` slots, from a given slot on. -/
def modesFrom (n slot : Nat) : Nat → Except Fault (List Mode)
  | 0 => .ok []
  | count + 1 => do
    let mode ← modeAt n slot
    let rest ← modesFrom n (slot + 1) count
    return mode :: rest

/-- The operation of a word. -/
def opcodeOf (n : Nat) : Except Fault Opcode :=
  match Opcode.ofCode? (codeOf n) with
  | some op => .ok op
  | none => .error { cause := .unknownOpcode (codeOf n) }

/-- The code of a word, whether or not an operation has it. -/
def decodeCode (word : Int) : Except Fault Nat := do
  let n ← wordNumber word
  return codeOf n

/-- The modes of the first `count` operands of a word. -/
def decodeModes (word : Int) (count : Nat) : Except Fault (List Mode) := do
  let n ← wordNumber word
  modesFrom n 0 count

/-- The code of a word and the modes of its first `count` operands. -/
def decodeWord (word : Int) (count : Nat) : Except Fault (Nat × List Mode) := do
  let code ← decodeCode word
  let modes ← decodeModes word count
  return (code, modes)

/-- An operation and its modes put together, the modes read from a word. -/
def Instruction.assemble (n : Nat) : Opcode → Except Fault Instruction
  | .add => compute .add
  | .multiply => compute .multiply
  | .lessThan => compute .lessThan
  | .equals => compute .equals
  | .input => return .input (← modeAt n 0)
  | .output => return .output (← modeAt n 0)
  | .jumpNonzero => jump .nonzero
  | .jumpZero => jump .zero
  | .adjustBase => return .adjustBase (← modeAt n 0)
  | .halt => return .halt
where
  /-- A computation has two values and a destination. -/
  compute (op : Computation) : Except Fault Instruction := do
    let x ← modeAt n 0
    let y ← modeAt n 1
    let dest ← modeAt n 2
    return .compute op x y dest
  /-- A jump has a value and a destination. -/
  jump (cond : Condition) : Except Fault Instruction := do
    let x ← modeAt n 0
    let dest ← modeAt n 1
    return .jump cond x dest

/-- The instruction a word stands for. -/
def Instruction.decode (word : Int) : Except Fault Instruction := do
  let n ← wordNumber word
  let op ← opcodeOf n
  Instruction.assemble n op

end CellMachine
