import Mathlib.Data.List.TakeWhile
import CellMachine.Image.Load
import CellMachine.Text.Fields

/-!
# CellMachine.Proofs.Image.Grammar

**The texts that are programs.** `IsProgram s xs` says, without reading anything, that the text `s`
is a program and stands for the integers `xs`: integers between commas, each an optional sign
directly followed by digits, with blanks around it. `parseExpanded` finds these integers in exactly
these texts (`parseExpanded_eq_ok_iff`).

Reading is greedy and never goes back. It misses nothing, because an integer is never followed by a
digit (`not_isDigit_head`), and because a comma behind one begins another (`item?_comma`).
-/

namespace CellMachine.Image

/-! ### The grammar -/

/-- Blanks and nothing else, or nothing at all. -/
def Blanks (s : List Char) : Prop := ∀ c ∈ s, c ∈ [' ', '\t', '\n', '\r']

/-- One digit or more. -/
def Digits (s : List Char) : Prop := s ≠ [] ∧ ∀ c ∈ s, '0'.toNat ≤ c.toNat ∧ c.toNat ≤ '9'.toNat

/-- The number that digits stand for: each counts by its place. -/
def decimal : List Char → Nat
  | [] => 0
  | c :: rest => (c.toNat - '0'.toNat) * Nat.pow 10 rest.length + decimal rest

/-- An integer as it is written in a program, and its value. -/
inductive Written : List Char → Int → Prop where
  /-- Without a sign. -/
  | bare {s : List Char} : Digits s → Written s (decimal s)
  /-- Behind a plus sign. -/
  | plus {s : List Char} : Digits s → Written ('+' :: s) (decimal s)
  /-- Behind a minus sign. -/
  | minus {s : List Char} : Digits s → Written ('-' :: s) (-decimal s)

/-- A program text, and the integers it stands for. -/
inductive IsProgram : List Char → List Int → Prop where
  /-- The last integer. -/
  | last {before number after : List Char} {value : Int} :
      Blanks before → Written number value → Blanks after →
      IsProgram (before ++ (number ++ after)) [value]
  /-- An integer, a comma, and more. -/
  | more {before number after rest : List Char} {value : Int} {values : List Int} :
      Blanks before → Written number value → Blanks after → IsProgram rest values →
      IsProgram (before ++ (number ++ (after ++ ',' :: rest))) (value :: values)

variable {s t before number after rest : List Char} {v : Int} {vs xs : List Int}

/-! ### Blanks -/

theorem isBlank_iff {c : Char} : isBlank c = true ↔ c ∈ [' ', '\t', '\n', '\r'] := by
  simp [isBlank, or_assoc]

theorem skipBlanks_append (h : Blanks before) (s : List Char) :
    skipBlanks (before ++ s) = skipBlanks s :=
  List.dropWhile_append_of_pos fun c hc => isBlank_iff.2 (h c hc)

theorem skipBlanks_eq_nil_iff : skipBlanks s = [] ↔ Blanks s := by
  simp only [skipBlanks, List.dropWhile_eq_nil_iff, Blanks, isBlank_iff]

/-- Skipping blanks takes blanks off the front. -/
theorem exists_blanks (s : List Char) : ∃ before, Blanks before ∧ s = before ++ skipBlanks s := by
  refine ⟨s.takeWhile isBlank, ?_, List.takeWhile_append_dropWhile.symm⟩
  intro c hc
  exact isBlank_iff.1 (List.all_eq_true.1 List.all_takeWhile c hc)

/-! ### Integers -/

theorem decimal_eq (s : List Char) (n : Nat) :
    Nat.ofDigitChars 10 s n = n * Nat.pow 10 s.length + decimal s := by
  induction s generalizing n with
  | nil => simp [decimal]
  | cons c rest ih =>
      have hpow : Nat.pow 10 (rest.length + 1) = Nat.pow 10 rest.length * 10 := rfl
      rw [Nat.ofDigitChars_cons, ih, decimal, List.length_cons, hpow]
      grind

theorem Digits.isDigit (h : Digits s) {c : Char} (hc : c ∈ s) : c.isDigit = true :=
  Char.isDigit_iff_toNat.2 (h.2 c hc)

/-- A written integer begins with a digit or a sign, and no blank or comma is part of it. -/
theorem Written.solid (h : Written number v) :
    number ≠ [] ∧ ∀ c ∈ number, c ∉ [' ', '\t', '\n', '\r'] ∧ c ≠ ',' := by
  have hdigit : ∀ {s : List Char}, Digits s → ∀ c ∈ s, c ∉ [' ', '\t', '\n', '\r'] ∧ c ≠ ',' := by
    intro s hs c hc
    have hcode := (hs.2 c hc).1
    constructor
    · intro hmem
      simp only [List.mem_cons, List.not_mem_nil, or_false] at hmem
      rcases hmem with rfl | rfl | rfl | rfl <;> exact absurd hcode (by decide)
    · intro heq
      exact absurd hcode (by rw [heq]; decide)
  cases h with
  | bare hs => exact ⟨hs.1, hdigit hs⟩
  | plus hs => exact ⟨by simp, List.forall_mem_cons.2 ⟨by decide, hdigit hs⟩⟩
  | minus hs => exact ⟨by simp, List.forall_mem_cons.2 ⟨by decide, hdigit hs⟩⟩

theorem skipBlanks_written (h : Written number v) (rest : List Char) :
    skipBlanks (number ++ rest) = number ++ rest := by
  obtain ⟨hne, hsolid⟩ := h.solid
  cases number with
  | nil => exact absurd rfl hne
  | cons c number =>
      have hc : ¬isBlank c = true := fun hc => (hsolid c (by simp)).1 (isBlank_iff.1 hc)
      rw [List.cons_append, skipBlanks, List.dropWhile_cons_of_neg hc]

theorem value?_of_splitSign (negative : Bool) (hs : Digits s)
    (hrest : ∀ c, rest.head? = some c → c.isDigit = false)
    (hsplit : Text.splitSign t = (negative, s ++ rest)) :
    value? t = some (Text.signed negative (decimal s), rest) := by
  have hdigits : ∀ c ∈ s, c.isDigit = true := fun c hc => hs.isDigit hc
  have htake : rest.takeWhile Char.isDigit = [] := by
    cases rest with
    | nil => rfl
    | cons c rest => simp [hrest c rfl]
  have hdrop : rest.dropWhile Char.isDigit = rest := by
    cases rest with
    | nil => rfl
    | cons c rest => simp [hrest c rfl]
  simp [value?, hsplit, List.takeWhile_append_of_pos hdigits, List.dropWhile_append_of_pos hdigits,
    htake, hdrop, hs.1, decimal_eq]

/-- A written integer is read, if the text goes on with no digit. -/
theorem value?_written (h : Written number v)
    (hrest : ∀ c, rest.head? = some c → c.isDigit = false) :
    value? (number ++ rest) = some (v, rest) := by
  cases h with
  | bare hs =>
      refine value?_of_splitSign false hs hrest ?_
      cases number with
      | nil => exact absurd rfl hs.1
      | cons c number => exact Text.splitSign_of_isDigit (hs.isDigit (by simp)) _
  | plus hs => exact value?_of_splitSign false hs hrest rfl
  | minus hs => exact value?_of_splitSign true hs hrest rfl

/-- A sign and the digits behind it are a written integer. -/
theorem written_of_splitSign {digits : List Char} (hdigits : Digits digits)
    (h : (Text.splitSign s).2 = digits ++ rest) :
    ∃ number, Written number (Text.signed (Text.splitSign s).1 (decimal digits)) ∧
      s = number ++ rest := by
  unfold Text.splitSign at h ⊢
  split at h
  · exact ⟨'-' :: digits, .minus hdigits, congrArg _ h⟩
  · exact ⟨'+' :: digits, .plus hdigits, congrArg _ h⟩
  · exact ⟨digits, .bare hdigits, h⟩

/-- What is read is a written integer. -/
theorem written_of_value? (h : value? s = some (v, rest)) :
    ∃ number, Written number v ∧ s = number ++ rest := by
  simp only [value?, Option.ite_none_left_eq_some, Option.some.injEq, Prod.mk.injEq] at h
  obtain ⟨hne, hvalue, hrest⟩ := h
  rw [decimal_eq, Nat.zero_mul, Nat.zero_add] at hvalue
  rw [← hvalue]
  apply written_of_splitSign
  · refine ⟨hne, ?_⟩
    intro c hc
    exact Char.isDigit_iff_toNat.1 (List.all_eq_true.1 List.all_takeWhile c hc)
  · rw [← hrest, List.takeWhile_append_dropWhile]

/-! ### Whole programs -/

/-- Behind an integer comes a blank, a comma or nothing: no digit. -/
theorem not_isDigit_head (h : Blanks after) (hrest : rest = [] ∨ ∃ tail, rest = ',' :: tail) :
    ∀ c, (after ++ rest).head? = some c → c.isDigit = false := by
  intro c hc
  cases after with
  | nil =>
      rcases hrest with rfl | ⟨tail, rfl⟩
      · cases hc
      · obtain rfl := Option.some.inj hc
        rfl
  | cons d after =>
      obtain rfl := Option.some.inj hc
      have hd := h d (by simp)
      simp only [List.mem_cons, List.not_mem_nil, or_false] at hd
      rcases hd with rfl | rfl | rfl | rfl <;> rfl

theorem item?_comma (h : Blanks after) (rest : List Char) :
    item? (after ++ ',' :: rest) = value? (skipBlanks rest) := by
  have hcomma : skipBlanks (',' :: rest) = ',' :: rest := List.dropWhile_cons_of_neg (by decide)
  rw [item?, skipBlanks_append h, hcomma]
  exact if_pos rfl

/-- An item is a comma and a written integer, blanks around the comma. -/
theorem written_of_item? (h : item? s = some (v, rest)) :
    ∃ after before number, Blanks after ∧ Blanks before ∧ Written number v ∧
      s = after ++ ',' :: (before ++ (number ++ rest)) := by
  obtain ⟨after, hafter, hs⟩ := exists_blanks s
  unfold item? at h
  split at h
  · rename_i c tail htail
    rw [Option.ite_none_right_eq_some] at h
    obtain ⟨rfl, hvalue⟩ := h
    obtain ⟨before, hbefore, htail'⟩ := exists_blanks tail
    obtain ⟨number, hnumber, hrest⟩ := written_of_value? hvalue
    refine ⟨after, before, number, hafter, hbefore, hnumber, ?_⟩
    rw [← hrest, ← htail', hs, htail]
    rfl
  · cases h

/-- The integer that a program begins with and the items behind it make it up, if only blanks are
left. -/
theorem isProgram_of_items (hitems : items s = (vs, rest)) (hrest : Blanks rest)
    (hbefore : Blanks before) (hnumber : Written number v) :
    IsProgram (before ++ (number ++ s)) (v :: vs) := by
  -- the induction is on the items; what stands before the first one is any written integer
  fun_induction items s generalizing before number v vs rest with
  | case1 s hnone =>
      obtain ⟨rfl, rfl⟩ := Prod.mk.inj hitems
      exact .last hbefore hnumber hrest
  | case2 s next tail hitem values last heq ih =>
      obtain ⟨rfl, rfl⟩ := Prod.mk.inj hitems
      obtain ⟨after, before', number', hafter, hbefore', hnumber', rfl⟩ := written_of_item? hitem
      exact .more hbefore hnumber hafter (ih heq hrest hbefore' hnumber')

/-- In a program an integer is found, then items, and then blanks only. -/
theorem IsProgram.exists_items (h : IsProgram s xs) :
    ∃ v rest vs last, value? (skipBlanks s) = some (v, rest) ∧ items rest = (vs, last) ∧
      Blanks last ∧ xs = v :: vs := by
  induction h with
  | @last before number after v hbefore hnumber hafter =>
      refine ⟨v, after, [], after, ?_, ?_, hafter, rfl⟩
      · rw [skipBlanks_append hbefore, skipBlanks_written hnumber]
        have hhead := not_isDigit_head hafter (.inl rfl)
        rw [List.append_nil] at hhead
        exact value?_written hnumber hhead
      · have hnone : item? after = none := by rw [item?, skipBlanks_eq_nil_iff.2 hafter]
        rw [items]
        split
        · rfl
        · simp_all
  | @more before number after rest v vs hbefore hnumber hafter _ ih =>
      obtain ⟨w, rest', ws, last, hvalue, hitems, hlast, rfl⟩ := ih
      refine ⟨v, after ++ ',' :: rest, w :: ws, last, ?_, ?_, hlast, rfl⟩
      · rw [skipBlanks_append hbefore, skipBlanks_written hnumber]
        exact value?_written hnumber (not_isDigit_head hafter (.inr ⟨rest, rfl⟩))
      · have hitem := (item?_comma hafter rest).trans hvalue
        rw [items]
        split
        · simp_all
        · simp_all

/-- Reading a text whose tabs are expanded finds exactly the integers of a program. -/
theorem parseExpanded_eq_ok_iff : parseExpanded s = .ok xs ↔ IsProgram s xs := by
  constructor
  · intro h
    unfold parseExpanded at h
    split at h
    · cases h
    · rename_i v rest hvalue
      obtain ⟨before, hbefore, hs⟩ := exists_blanks s
      obtain ⟨number, hnumber, hnext⟩ := written_of_value? hvalue
      rcases hitems : items rest with ⟨vs, last⟩
      rw [hitems] at h
      simp only at h
      split at h
      · rename_i hlast
        obtain rfl := Except.ok.inj h
        rw [hs, hnext]
        exact isProgram_of_items hitems (skipBlanks_eq_nil_iff.1 hlast) hbefore hnumber
      · cases h
  · intro h
    obtain ⟨v, rest, vs, last, hvalue, hitems, hlast, rfl⟩ := h.exists_items
    simp only [parseExpanded, hvalue, hitems, skipBlanks_eq_nil_iff.2 hlast]

end CellMachine.Image
