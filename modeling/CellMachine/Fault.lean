import CellMachine.DigitLimit

/-!
# Faults

A fault is an instruction that cannot be carried out. It says what went wrong (its *cause*) and,
once known, where: the instruction pointer and the instruction word. Causes are data; the wording
is in `Fault.Cause.message` and `Fault.text` only.

A fault arises without a place, deep inside an operand access, and is *located* by the step that
ran the instruction. Only the first place counts.

As data a fault has integers of any size, and it can always be raised. Under a digit limit it is
raised only if the integers in the wording of its cause can be written (`DigitLimit.raise`), and its
full wording is written only if the place can be, too (`Fault.integers`).
-/

namespace CellMachine

/-- The kinds of fault a caller may tell apart. -/
inductive Fault.Kind where
  /-- Of no particular kind. -/
  | general
  /-- The instruction word cannot be decoded. -/
  | decode
  /-- An immediate operand stands where a result is to be stored. -/
  | writeMode
  /-- A cell below address zero was asked for. -/
  | negativeAddress
  /-- The machine faulted earlier and was asked to go on. -/
  | alreadyFaulted
  deriving DecidableEq, Repr

/-- What went wrong. -/
inductive Fault.Cause where
  /-- The instruction word is below zero. -/
  | negativeWord (word : Int)
  /-- No instruction has this code. -/
  | unknownOpcode (code : Nat)
  /-- No addressing mode has this digit. -/
  | unknownMode (digit : Nat)
  /-- The operand in this slot is a target in immediate mode. -/
  | immediateTarget (slot : Int)
  /-- No cell has this address. -/
  | negativeAddress (address : Int)
  /-- A faulted machine is never resumed. -/
  | resumedAfterFault
  /-- A cause in a caller's own words. -/
  | custom (kind : Kind) (message : String)
  deriving DecidableEq, Repr

/-- A cause, and the place where it arose as far as it is known. -/
structure Fault where
  /-- What went wrong. -/
  cause : Fault.Cause
  /-- The instruction pointer of the failing instruction. -/
  ip : Option Int := none
  /-- The instruction word, if it was fetched. -/
  word : Option Int := none
  deriving DecidableEq, Repr

namespace Fault

/-- The kind a cause belongs to. -/
def Cause.kind : Cause → Kind
  | .negativeWord _ | .unknownOpcode _ | .unknownMode _ => .decode
  | .immediateTarget _ => .writeMode
  | .negativeAddress _ => .negativeAddress
  | .resumedAfterFault => .alreadyFaulted
  | .custom kind _ => kind

/-- The wording of a cause, without the place. -/
def Cause.message : Cause → String
  | .negativeWord word => s!"Negative instruction word {word}"
  | .unknownOpcode code => s!"Unknown opcode {code}"
  | .unknownMode digit => s!"Unknown addressing mode {digit}"
  | .immediateTarget slot => s!"Immediate mode write target in operand {slot}"
  | .negativeAddress address => s!"Negative address {address}"
  | .resumedAfterFault => "Machine has faulted and cannot be resumed"
  | .custom _ message => message

/-- The integers in the wording of a cause. -/
def Cause.integers : Cause → List Int
  | .negativeWord word => [word]
  | .unknownOpcode code => [code]
  | .unknownMode digit => [digit]
  | .immediateTarget slot => [slot]
  | .negativeAddress address => [address]
  | .resumedAfterFault | .custom .. => []

/-- Says where a fault arose, unless that is known already. -/
def locate (f : Fault) (ip word : Option Int) : Fault :=
  if f.ip.isNone then { f with ip, word } else f

/-- The wording of an absent value. -/
def wordText : Option Int → String
  | some word => toString word
  | none => "None"

/-- The full wording: the message, then the place if the instruction pointer is known. -/
def text (f : Fault) : String :=
  match f.ip with
  | none => f.cause.message
  | some ip => s!"{f.cause.message} (IP:{ip} W:{wordText f.word})"

/-- The integers in the full wording. -/
def integers (f : Fault) : List Int :=
  match f.ip with
  | none => f.cause.integers
  | some ip => f.cause.integers ++ ip :: f.word.toList

@[simp] theorem cause_locate (f : Fault) (ip word : Option Int) :
    (f.locate ip word).cause = f.cause := by
  unfold locate; split <;> rfl

@[simp] theorem locate_of_none (c : Cause) (w ip word : Option Int) :
    (Fault.mk c none w).locate ip word = ⟨c, ip, word⟩ := rfl

@[simp] theorem locate_of_some (c : Cause) (i : Int) (w ip word : Option Int) :
    (Fault.mk c (some i) w).locate ip word = ⟨c, some i, w⟩ := rfl

end Fault

/-- What comes of an outcome under a digit limit: a fault is raised together with the wording of its
cause, or else the wording is refused. -/
def DigitLimit.raise {α : Type} (limit : DigitLimit) :
    Except Fault α → Except Refusal (Except Fault α)
  | .ok a => .ok (.ok a)
  | .error fault =>
    if fault.cause.integers.all limit.writes then .ok (.error fault) else .error (.write limit)

@[simp] theorem DigitLimit.raise_ok {α : Type} (limit : DigitLimit) (a : α) :
    limit.raise (.ok a) = .ok (.ok a) := rfl

end CellMachine
