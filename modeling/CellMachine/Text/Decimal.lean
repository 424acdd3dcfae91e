/-!
# Decimal notation

Integers are written by `toString`, that is by `Int.repr`: the digits of the absolute value, a
minus sign in front if the integer is below zero. This module says what such a text looks like,
character by character, so that what the readers of the library make of it can be proved.
-/

namespace CellMachine.Text

/-- The characters of a decimal. -/
theorem toList_repr (i : Int) :
    i.repr.toList =
      if i < 0 then '-' :: Nat.toDigits 10 i.natAbs else Nat.toDigits 10 i.natAbs := by
  cases i with
  | ofNat n =>
    rw [if_neg (by simp), Int.repr, Nat.toList_repr]
    simp
  | negSucc n =>
    rw [if_pos (Int.negSucc_lt_zero n), Int.repr, String.toList_append, Nat.toList_repr]
    rfl

/-- The digits of a number are digits. -/
theorem isDigit_of_mem_toDigits {n : Nat} {c : Char} (h : c ∈ Nat.toDigits 10 n) :
    c.isDigit = true :=
  Nat.isDigit_of_mem_toDigits (by decide) (by decide) h

/-- The code points of digits. -/
theorem toNat_of_isDigit {c : Char} (h : c.isDigit = true) : 48 ≤ c.toNat ∧ c.toNat ≤ 57 := by
  simp only [Char.isDigit, Bool.and_eq_true, decide_eq_true_eq, ge_iff_le,
    UInt32.le_iff_toNat_le] at h
  have h0 : '0'.val.toNat = 48 := rfl
  have h9 : '9'.val.toNat = 57 := rfl
  have hc : c.toNat = c.val.toNat := rfl
  omega

/-- A decimal consists of digits and, in front, a minus sign. -/
theorem isDigit_or_eq_of_mem_repr {i : Int} {c : Char} (h : c ∈ i.repr.toList) :
    c.isDigit = true ∨ c = '-' := by
  rw [toList_repr] at h
  split at h
  · rcases List.mem_cons.1 h with rfl | h
    · exact .inr rfl
    · exact .inl (isDigit_of_mem_toDigits h)
  · exact .inl (isDigit_of_mem_toDigits h)

theorem not_mem_repr {c : Char} (hdigit : c.isDigit = false) (hsign : c ≠ '-') (i : Int) :
    c ∉ i.repr.toList := by
  intro hc
  rcases isDigit_or_eq_of_mem_repr hc with h | h
  · rw [hdigit] at h
    cases h
  · exact hsign h

/-- Of the characters of a decimal only the sign is no digit. -/
theorem countP_isDigit_repr (i : Int) :
    i.repr.toList.countP Char.isDigit = (Nat.toDigits 10 i.natAbs).length := by
  have hdigits : (Nat.toDigits 10 i.natAbs).countP Char.isDigit =
      (Nat.toDigits 10 i.natAbs).length :=
    List.countP_eq_length.2 fun c hc => isDigit_of_mem_toDigits hc
  rw [toList_repr]
  split
  · rw [List.countP_cons_of_neg (by decide), hdigits]
  · exact hdigits

theorem toList_repr_ne_nil (i : Int) : i.repr.toList ≠ [] := by
  rw [toList_repr]
  split
  · simp
  · exact Nat.toDigits_ne_nil

end CellMachine.Text
