import Mathlib.Algebra.Group.Nat.Defs
import CellMachine.Instruction.Decode
import CellMachine.Text.Decimal

/-!
# CellMachine.Proofs.Reference.Word

**Words as texts.** The rule for decoding a word speaks of its decimal text: padded with zeros to
two characters, its last two characters are the code of the operation, and the mode of the operand
in slot `i` is the character in position `length - 3 - i`, if there is one. This module states that
rule (`opcode`, `mode?`) and shows that taking the number apart by division gives the same
(`opcode_eq_codeOf`, `mode?_eq_ofDigit?`).
-/

namespace CellMachine.Reference

/-- The decimal text of a number, padded with zeros on the left to two characters. -/
def wordText (n : Nat) : List Char := n.repr.toList.leftpad 2 '0'

/-- The value of the last two characters of a word. -/
def opcode (n : Nat) : Nat :=
  Nat.ofDigitChars 10 ((wordText n).drop ((wordText n).length - 2)) 0

/-- The mode that a character stands for. -/
def modeOfChar? : Char → Option Mode
  | '0' => some .position
  | '1' => some .immediate
  | '2' => some .relative
  | _ => none

/-- The mode of the operand in a slot. A position to the left of the text means position mode. -/
def mode? (n slot : Nat) : Option Mode :=
  if (wordText n).length < slot + 3 then some .position
  else (wordText n)[(wordText n).length - 3 - slot]?.bind modeOfChar?

/-- The character for the operand in a slot, unless its position is to the left of the text. -/
def character? (n slot : Nat) : Option Char :=
  if (wordText n).length < slot + 3 then none
  else (wordText n)[(wordText n).length - 3 - slot]?

/-! ### The decimal text of a number, from the right -/

theorem wordText_of_lt {n : Nat} (h : n < 10) : wordText n = ['0', n.digitChar] := by
  rw [wordText, Nat.toList_repr, Nat.toDigits_of_lt_base h]
  rfl

theorem wordText_of_le {n : Nat} (h : 10 ≤ n) : wordText n = Nat.toDigits 10 n := by
  have hlen : ¬ (Nat.toDigits 10 n).length ≤ 1 := by
    rw [Nat.length_toDigits_le_iff (by decide) (by decide)]
    omega
  have hpad : 2 - (Nat.toDigits 10 n).length = 0 := by omega
  rw [wordText, Nat.toList_repr, List.leftpad, hpad]
  rfl

theorem length_wordText_le_iff {n k : Nat} (hk : 2 ≤ k) : (wordText n).length ≤ k ↔ n < 10 ^ k := by
  rw [← Nat.length_toDigits_le_iff (n := n) (b := 10) (by decide) (by omega), wordText,
    Nat.toList_repr, List.length_leftpad]
  omega

/-- The characters of a decimal, from the right, are the digits of the number, from the least. -/
theorem getElem?_reverse_toDigits {n k : Nat} (h : k < (Nat.toDigits 10 n).length) :
    (Nat.toDigits 10 n).reverse[k]? = some (n / 10 ^ k % 10).digitChar := by
  induction k generalizing n with
  | zero =>
      rcases Nat.lt_or_ge n 10 with hn | hn
      · rw [Nat.toDigits_of_lt_base hn, Nat.pow_zero, Nat.div_one, Nat.mod_eq_of_lt hn]
        rfl
      · rw [Nat.toDigits_of_base_le (by decide) hn, List.reverse_concat, Nat.pow_zero, Nat.div_one]
        rfl
  | succ k ih =>
      rcases Nat.lt_or_ge n 10 with hn | hn
      · rw [Nat.toDigits_of_lt_base hn, List.length_singleton] at h
        omega
      · rw [Nat.toDigits_of_base_le (by decide) hn] at h ⊢
        rw [List.length_append, List.length_singleton] at h
        rw [List.reverse_concat, List.getElem?_cons_succ, ih (by omega), Nat.div_div_eq_div_mul,
          Nat.pow_succ']

/-! ### Both ways to take a word apart agree -/

theorem exists_wordText (n : Nat) :
    ∃ pre, wordText n = pre ++ [(n / 10 % 10).digitChar, (n % 10).digitChar] := by
  rcases Nat.lt_or_ge n 10 with hn | hn
  · refine ⟨[], ?_⟩
    rw [wordText_of_lt hn, Nat.div_eq_of_lt hn, Nat.mod_eq_of_lt hn]
    rfl
  · rw [wordText_of_le hn, Nat.toDigits_of_base_le (by decide) hn]
    rcases Nat.lt_or_ge (n / 10) 10 with hn' | hn'
    · refine ⟨[], ?_⟩
      rw [Nat.toDigits_of_lt_base hn', Nat.mod_eq_of_lt hn']
      rfl
    · refine ⟨Nat.toDigits 10 (n / 10 / 10), ?_⟩
      rw [Nat.toDigits_of_base_le (by decide) hn', List.append_assoc]
      rfl

theorem opcode_eq_codeOf (n : Nat) : opcode n = codeOf n := by
  obtain ⟨pre, hpre⟩ := exists_wordText n
  have hlast : (wordText n).drop ((wordText n).length - 2) =
      [(n / 10 % 10).digitChar, (n % 10).digitChar] := by
    rw [hpre, List.length_append]
    exact List.drop_left' rfl
  rw [opcode, hlast, Nat.ofDigitChars_cons_digitChar_of_lt_ten (Nat.mod_lt _ (by decide)),
    Nat.ofDigitChars_cons_digitChar_of_lt_ten (Nat.mod_lt _ (by decide)), Nat.ofDigitChars_nil,
    codeOf]
  omega

theorem modeOfChar?_digitChar {d : Nat} (h : d < 10) :
    modeOfChar? d.digitChar = Mode.ofDigit? d := by
  match d, h with
  | 0, _ | 1, _ | 2, _ | 3, _ | 4, _ | 5, _ | 6, _ | 7, _ | 8, _ | 9, _ => rfl

/-- The digit for a slot is the character in its position, or zero to the left of the text. -/
theorem character?_cases (n slot : Nat) :
    (character? n slot = none ∧ modeDigit n slot = 0) ∨
      character? n slot = some (modeDigit n slot).digitChar := by
  have hdigit : modeDigit n slot = n / 10 ^ (slot + 2) % 10 := by
    rw [modeDigit, Nat.pow_eq, Nat.div_div_eq_div_mul, Nat.pow_add, Nat.mul_comm]
  rw [character?, hdigit]
  split
  · rename_i hshort
    -- a text too short for the slot is a number too small for the digit
    have hlt : n < 10 ^ (slot + 2) := (length_wordText_le_iff (by omega)).1 (by omega)
    exact .inl ⟨rfl, by rw [Nat.div_eq_of_lt hlt]⟩
  · rename_i hlong
    have hge : 10 ≤ n := by
      have hlen : ¬ (wordText n).length ≤ 2 := by omega
      rw [length_wordText_le_iff (Nat.le_refl 2)] at hlen
      omega
    -- counted from the right, the position does not depend on the length of the text
    rw [wordText_of_le hge] at hlong ⊢
    have hpos : (Nat.toDigits 10 n).length - 3 - slot =
        (Nat.toDigits 10 n).length - 1 - (slot + 2) := by omega
    rw [hpos, ← List.getElem?_reverse (by omega), getElem?_reverse_toDigits (by omega)]
    exact .inr rfl

theorem mode?_eq_elim (n slot : Nat) :
    mode? n slot = (character? n slot).elim (some .position) modeOfChar? := by
  unfold mode? character?
  split
  · rfl
  · rename_i hlong
    have hpos : (wordText n).length - 3 - slot < (wordText n).length := by omega
    rw [List.getElem?_eq_getElem hpos]
    rfl

theorem mode?_eq_ofDigit? (n slot : Nat) : mode? n slot = Mode.ofDigit? (modeDigit n slot) := by
  rw [mode?_eq_elim]
  rcases character?_cases n slot with ⟨hnone, hzero⟩ | hsome
  · rw [hnone, hzero]
    rfl
  · rw [hsome]
    exact modeOfChar?_digitChar (Nat.mod_lt _ (by decide))

end CellMachine.Reference
