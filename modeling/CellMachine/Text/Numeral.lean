import CellMachine.DigitLimit
import CellMachine.Text.Blank
import CellMachine.Text.Digit

/-!
# Integers as people type them

An integer in an option is an optional sign followed by decimal digits, of any script and in any
mixture. A single underscore may stand between two digits, and blanks may stand around the whole
(information separators are no blanks here). `Numeral.parse?` reads such a text, of any length
unless it is given a digit limit; it refuses every other.
-/

namespace CellMachine.Text

/-- Splits off a sign: is the number below zero, and what follows the sign. -/
def splitSign : List Char → Bool × List Char
  | '-' :: rest => (true, rest)
  | '+' :: rest => (false, rest)
  | rest => (false, rest)

/-- A number with its sign. -/
def signed (negative : Bool) (n : Nat) : Int := if negative then -(n : Int) else n

theorem splitSign_of_isDigit {c : Char} (h : c.isDigit = true) (rest : List Char) :
    splitSign (c :: rest) = (false, c :: rest) := by
  unfold splitSign
  split
  · rename_i hc
    rw [List.cons.injEq] at hc
    exact absurd h (by rw [hc.1]; decide)
  · rename_i hc
    rw [List.cons.injEq] at hc
    exact absurd h (by rw [hc.1]; decide)
  · rfl

/-- A decimal is its sign and the digits of its absolute value. -/
theorem splitSign_repr (i : Int) (rest : List Char) :
    splitSign (i.repr.toList ++ rest) =
      (decide (i < 0), Nat.toDigits 10 i.natAbs ++ rest) := by
  rw [toList_repr]
  by_cases hi : i < 0
  · simp [hi, splitSign]
  · rw [if_neg hi]
    cases hd : Nat.toDigits 10 i.natAbs with
    | nil => exact absurd hd Nat.toDigits_ne_nil
    | cons c digits =>
      rw [List.cons_append,
        splitSign_of_isDigit (isDigit_of_mem_toDigits (n := i.natAbs) (by simp [hd]))]
      simp [hi]

theorem signed_natAbs (i : Int) : signed (decide (i < 0)) i.natAbs = i := by
  unfold signed
  split
  · rename_i h
    rw [decide_eq_true_eq] at h
    omega
  · rename_i h
    rw [decide_eq_true_eq] at h
    omega

namespace Numeral

/-- May this character stand around an integer? -/
def isPadding (c : Char) : Bool := isBlank c && !isSeparator c

/-- A text without the padding around it. -/
def trim (s : List Char) : List Char :=
  ((s.dropWhile isPadding).reverse.dropWhile isPadding).reverse

/-- The values of one digit or more, single underscores between them. -/
def digits? : List Char → Option (List Nat)
  | [] => none
  | [c] => do
    let d ← digitValue? c
    return [d]
  | c :: '_' :: rest => do
    let d ← digitValue? c
    let ds ← digits? rest
    return d :: ds
  | c :: next :: rest => do
    let d ← digitValue? c
    let ds ← digits? (next :: rest)
    return d :: ds

/-- The number that digit values stand for, most significant first. -/
def ofDigits (digits : List Nat) : Nat := digits.foldl (fun n d => 10 * n + d) 0

/-- Reads an integer. -/
def parse? (text : String) (limit : DigitLimit := .off) : Option Int :=
  let (negative, body) := splitSign (trim text.toList)
  (digits? body).bind fun digits =>
    if limit.reads digits.length then some (signed negative (ofDigits digits)) else none

/-! ## Decimals are read back -/

/-- The characters of decimals are no blanks. -/
theorem isBlank_eq_false {c : Char} (h : c.isDigit = true ∨ c = '-') : isBlank c = false := by
  have hc : c.toNat = 45 ∨ 48 ≤ c.toNat ∧ c.toNat ≤ 57 := by
    rcases h with h | rfl
    · exact .inr (toNat_of_isDigit h)
    · exact .inl rfl
  simp only [isBlank, inRanges, blankRanges, List.any_cons, List.any_nil, Bool.or_false,
    Bool.or_eq_false_iff, Bool.and_eq_false_iff, decide_eq_false_iff_not]
  omega

theorem isPadding_eq_false {c : Char} (h : c.isDigit = true ∨ c = '-') : isPadding c = false := by
  simp [isPadding, isBlank_eq_false h]

theorem dropWhile_isPadding {s : List Char} (h : ∀ c ∈ s, c.isDigit = true ∨ c = '-') :
    s.dropWhile isPadding = s := by
  cases s with
  | nil => rfl
  | cons c rest => simp [isPadding_eq_false (h c (by simp))]

/-- A decimal has no padding. -/
theorem trim_repr (i : Int) : trim i.repr.toList = i.repr.toList := by
  have h : ∀ c ∈ i.repr.toList, c.isDigit = true ∨ c = '-' :=
    fun c hc => isDigit_or_eq_of_mem_repr hc
  rw [trim, dropWhile_isPadding h,
    dropWhile_isPadding fun c hc => h c (List.mem_reverse.1 hc), List.reverse_reverse]

theorem digits?_of_isDigit {s : List Char} (hne : s ≠ []) (h : ∀ c ∈ s, c.isDigit = true) :
    digits? s = some (s.map fun c => c.toNat - '0'.toNat) := by
  fun_induction digits? s with
  | case1 => exact absurd rfl hne
  | case2 c => simp [digitValue?_of_isDigit (h c (by simp))]
  | case3 c rest ih => exact absurd (h '_' (by simp)) (by decide)
  | case4 c next rest _ ih =>
    simp [digitValue?_of_isDigit (h c (by simp)), ih (by simp) fun d hd => h d (by simp [hd])]

theorem ofDigits_eq (s : List Char) :
    ofDigits (s.map fun c => c.toNat - '0'.toNat) = Nat.ofDigitChars 10 s 0 := by
  simp [ofDigits, Nat.ofDigitChars_eq_foldl, List.foldl_map]

/-- A decimal is read as the integer it stands for, if that can be written. -/
theorem parse?_repr_within (limit : DigitLimit) (i : Int) :
    parse? i.repr limit = if limit.writes i then some i else none := by
  have hsplit := splitSign_repr i []
  rw [List.append_nil, List.append_nil] at hsplit
  rw [parse?, trim_repr, hsplit, DigitLimit.writes_eq_reads]
  simp only [digits?_of_isDigit Nat.toDigits_ne_nil fun c hc => isDigit_of_mem_toDigits hc,
    Option.bind_some, List.length_map, ofDigits_eq, Nat.ofDigitChars_ten_toDigits, signed_natAbs]

/-- A decimal is read as the integer it stands for. -/
@[simp] theorem parse?_repr (i : Int) : parse? i.repr = some i := parse?_repr_within .off i

/-! ## What is read can be written -/

theorem lt_ten_of_digits? {s : List Char} {digits : List Nat} (h : digits? s = some digits) :
    ∀ d ∈ digits, d < 10 := by
  fun_induction digits? s generalizing digits with
  | case1 => cases h
  | case2 c =>
    obtain ⟨d, hd, ⟨⟩⟩ := Option.bind_eq_some_iff.1 h
    simpa using digitValue?_lt hd
  | case3 c rest ih =>
    obtain ⟨d, hd, h⟩ := Option.bind_eq_some_iff.1 h
    obtain ⟨ds, hds, ⟨⟩⟩ := Option.bind_eq_some_iff.1 h
    exact List.forall_mem_cons.2 ⟨digitValue?_lt hd, ih hds⟩
  | case4 c next rest _ ih =>
    obtain ⟨d, hd, h⟩ := Option.bind_eq_some_iff.1 h
    obtain ⟨ds, hds, ⟨⟩⟩ := Option.bind_eq_some_iff.1 h
    exact List.forall_mem_cons.2 ⟨digitValue?_lt hd, ih hds⟩

/-- Each digit takes one place. -/
theorem ofDigits_lt {digits : List Nat} (h : ∀ d ∈ digits, d < 10) :
    ofDigits digits < Nat.pow 10 digits.length := by
  have hfold : ∀ (digits : List Nat) (n : Nat), (∀ d ∈ digits, d < 10) →
      digits.foldl (fun n d => 10 * n + d) n < (n + 1) * Nat.pow 10 digits.length := by
    intro digits
    induction digits with
    | nil => intro n _; simp
    | cons d digits ih =>
      intro n h
      obtain ⟨hd, h⟩ := List.forall_mem_cons.1 h
      calc digits.foldl (fun n d => 10 * n + d) (10 * n + d)
          < (10 * n + d + 1) * Nat.pow 10 digits.length := ih _ h
        _ ≤ (n + 1) * 10 * Nat.pow 10 digits.length := Nat.mul_le_mul_right _ (by omega)
        _ = (n + 1) * Nat.pow 10 (digits.length + 1) := by
          rw [Nat.mul_assoc]
          exact congrArg _ (Nat.mul_comm _ _)
  have hlt := hfold digits 0 h
  rwa [Nat.zero_add, Nat.one_mul] at hlt

/-- An integer that is read under a limit can be written under it. -/
theorem writes_of_parse? {text : String} {limit : DigitLimit} {i : Int}
    (h : parse? text limit = some i) : limit.writes i = true := by
  obtain ⟨digits, hdigits, h⟩ := Option.bind_eq_some_iff.1 h
  rw [Option.ite_none_right_eq_some] at h
  obtain ⟨hreads, hvalue⟩ := h
  have habs : i.natAbs = ofDigits digits := by
    rw [← Option.some.inj hvalue, signed]
    split <;> simp
  have hlt := ofDigits_lt (lt_ten_of_digits? hdigits)
  simp only [DigitLimit.reads, DigitLimit.writes, Bool.or_eq_true, decide_eq_true_eq, habs]
    at hreads ⊢
  refine hreads.imp_right fun hle => Nat.lt_of_lt_of_le hlt ?_
  exact Nat.pow_le_pow_right (by decide) hle

end Numeral

end CellMachine.Text
