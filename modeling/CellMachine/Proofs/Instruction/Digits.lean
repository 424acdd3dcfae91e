import Mathlib.Algebra.BigOperators.Ring.List
import Mathlib.Algebra.GroupWithZero.Nat
import Mathlib.Tactic.Ring
import CellMachine.Proofs.Machine.Intents
import CellMachine.Proofs.Reference.Word

/-!
# CellMachine.Proofs.Instruction.Digits

**Words by their digits.** The modes of a word are read one digit after another, and the first digit
that is none ends it (`modesFrom_eq_ok_iff`, `modesFrom_eq_error_iff`). Each digit is the character
of the decimal text in the position that the rule for decoding names (`Reference.character?_cases`),
so decoding by division is decoding by that rule. Only the digits of the slots asked for are looked
at (`decodeWord_congr`), which is why a word can be put together from a code and modes, with
anything in front, and taken apart again.
-/

namespace CellMachine

variable {n n' slot count : Nat} {mode : Mode} {modes : List Mode} {fault : Fault}

/-! ### One step after another, up to the first that fails -/

/-- A list is worked through up to the first item that fails. -/
theorem mapM_eq_error_iff {α β ε : Type} {f : α → Except ε β} {as : List α} {e : ε} :
    as.mapM f = .error e ↔
      ∃ (i : Nat) (a : α), as[i]? = some a ∧ f a = .error e ∧
        ∀ j < i, ∀ b, as[j]? = some b → ∃ v, f b = .ok v := by
  induction as with
  | nil => simp [pure, Except.pure]
  | cons a as ih =>
      rw [List.mapM_cons]
      cases ha : f a with
      | error e' =>
          constructor
          · rintro ⟨⟩
            exact ⟨0, a, rfl, ha, fun j hj => absurd hj (Nat.not_lt_zero j)⟩
          · rintro ⟨_ | i, b, hb, he, hearlier⟩
            · obtain rfl := Option.some.inj hb
              rw [ha] at he
              exact congrArg _ (Except.error.inj he)
            · obtain ⟨v, hv⟩ := hearlier 0 (Nat.succ_pos i) a rfl
              rw [ha] at hv
              cases hv
      | ok v =>
          have hrest :
              (Except.ok v >>= fun v => as.mapM f >>= fun vs => pure (v :: vs)) = .error e ↔
                as.mapM f = .error e := by
            cases as.mapM f <;> simp [bind, Except.bind, pure, Except.pure]
          rw [hrest, ih]
          constructor
          · rintro ⟨i, b, hb, he, hearlier⟩
            refine ⟨i + 1, b, hb, he, ?_⟩
            rintro (_ | j) hj c hc
            · obtain rfl := Option.some.inj hc
              exact ⟨v, ha⟩
            · exact hearlier j (Nat.lt_of_succ_lt_succ hj) c hc
          · rintro ⟨_ | i, b, hb, he, hearlier⟩
            · obtain rfl := Option.some.inj hb
              rw [ha] at he
              cases he
            · exact ⟨i, b, hb, he, fun j hj => hearlier (j + 1) (Nat.succ_lt_succ hj)⟩

/-! ### Modes, digit by digit -/

theorem modeDigit_lt (n slot : Nat) : modeDigit n slot < 10 := Nat.mod_lt _ (by decide)

theorem ofDigit?_eq_none_iff {digit : Nat} : Mode.ofDigit? digit = none ↔ 2 < digit := by
  match digit with
  | 0 | 1 | 2 => simp [Mode.ofDigit?]
  | digit + 3 => simp [Mode.ofDigit?]

theorem modeAt_eq_ok_iff :
    modeAt n slot = .ok mode ↔ Mode.ofDigit? (modeDigit n slot) = some mode := by
  unfold modeAt
  split
  · rename_i hmode
    rw [hmode, Except.ok.injEq, Option.some.injEq]
  · rename_i hnone
    rw [hnone]
    exact iff_of_false nofun nofun

theorem modeAt_eq_error_iff :
    modeAt n slot = .error fault ↔
      2 < modeDigit n slot ∧ fault = { cause := .unknownMode (modeDigit n slot) } := by
  rw [← ofDigit?_eq_none_iff]
  unfold modeAt
  split
  · rename_i hmode
    rw [hmode]
    exact iff_of_false nofun nofun
  · rename_i hnone
    rw [hnone, Except.error.injEq, eq_comm]
    exact (and_iff_right rfl).symm

theorem modesFrom_eq_mapM (n slot count : Nat) :
    modesFrom n slot count = (List.range' slot count).mapM (modeAt n) := by
  induction count generalizing slot with
  | zero => rfl
  | succ count ih => rw [modesFrom, List.range'_succ, List.mapM_cons, ih]

/-- The modes that are read are those of the digits. -/
theorem modesFrom_eq_ok_iff :
    modesFrom n slot count = .ok modes ↔
      (List.range' slot count).map (fun slot => Mode.ofDigit? (modeDigit n slot)) =
        modes.map some := by
  induction count generalizing slot modes with
  | zero =>
      rw [modesFrom, Except.ok.injEq, List.range'_zero, List.map_nil]
      exact ⟨fun h => by rw [← h]; rfl, fun h => (List.map_eq_nil_iff.1 h.symm).symm⟩
  | succ count ih =>
      rw [modesFrom, bind_eq_ok, List.range'_succ, List.map_cons]
      cases modes with
      | nil =>
          refine iff_of_false ?_ (by simp)
          rintro ⟨mode, -, h⟩
          obtain ⟨rest, -, ⟨⟩⟩ := bind_eq_ok.1 h
      | cons mode modes =>
          rw [List.map_cons, List.cons.injEq, ← modeAt_eq_ok_iff, ← ih]
          constructor
          · rintro ⟨mode', hmode, h⟩
            obtain ⟨rest, hrest, ⟨⟩⟩ := bind_eq_ok.1 h
            exact ⟨hmode, hrest⟩
          · rintro ⟨hmode, hrest⟩
            exact ⟨mode, hmode, bind_eq_ok.2 ⟨modes, hrest, rfl⟩⟩

theorem getElem?_of_modesFrom (h : modesFrom n 0 count = .ok modes) (hslot : slot < count) :
    modes[slot]? = Mode.ofDigit? (modeDigit n slot) := by
  have hat := congrArg (·[slot]?) (modesFrom_eq_ok_iff.1 h)
  simp only [List.getElem?_map, List.getElem?_range' hslot, Option.map_some, Nat.zero_add,
    Nat.one_mul] at hat
  cases hmode : modes[slot]? with
  | none =>
      rw [hmode] at hat
      cases hat
  | some mode =>
      rw [hmode] at hat
      exact (Option.some.inj hat).symm

/-- Reading modes fails at the first digit that is none, and names it. -/
theorem modesFrom_eq_error_iff :
    modesFrom n 0 count = .error fault ↔
      ∃ slot < count, 2 < modeDigit n slot ∧ (∀ earlier < slot, modeDigit n earlier ≤ 2) ∧
        fault = { cause := .unknownMode (modeDigit n slot) } := by
  have hok : ∀ slot, (∃ mode, modeAt n slot = .ok mode) ↔ modeDigit n slot ≤ 2 := by
    intro slot
    simp only [modeAt_eq_ok_iff, ← Option.isSome_iff_exists, ← Option.ne_none_iff_isSome, ne_eq,
      ofDigit?_eq_none_iff, Nat.not_lt]
  rw [modesFrom_eq_mapM, mapM_eq_error_iff]
  simp only [List.getElem?_eq_some_iff, List.getElem_range', List.length_range', Nat.zero_add,
    Nat.one_mul, modeAt_eq_error_iff]
  constructor
  · rintro ⟨i, _, ⟨hi, rfl⟩, ⟨hdigit, hfault⟩, hearlier⟩
    exact ⟨i, hi, hdigit,
      fun j hj => (hok j).1 (hearlier j hj j ⟨Nat.lt_trans hj hi, rfl⟩), hfault⟩
  · rintro ⟨i, hi, hdigit, hearlier, hfault⟩
    refine ⟨i, i, ⟨hi, rfl⟩, ⟨hdigit, hfault⟩, ?_⟩
    rintro j hj _ ⟨-, rfl⟩
    exact (hok j).2 (hearlier j hj)

/-! ### Only the digits asked for count -/

theorem wordNumber_natCast (n : Nat) : wordNumber n = .ok n := by
  simp [wordNumber, Int.not_lt.2 (Int.natCast_nonneg n)]

theorem decodeCode_natCast (n : Nat) : decodeCode n = .ok (codeOf n) := by
  rw [decodeCode, wordNumber_natCast]
  rfl

theorem decodeModes_natCast (n count : Nat) : decodeModes n count = modesFrom n 0 count := by
  rw [decodeModes, wordNumber_natCast]
  rfl

theorem modesFrom_congr
    (h : ∀ i, slot ≤ i → i < slot + count → modeDigit n' i = modeDigit n i) :
    modesFrom n' slot count = modesFrom n slot count := by
  induction count generalizing slot with
  | zero => rfl
  | succ count ih =>
      have hfirst : modeAt n' slot = modeAt n slot := by
        rw [modeAt, modeAt, h slot (Nat.le_refl slot) (by omega)]
      rw [modesFrom, modesFrom, hfirst, ih fun i hi hlt => h i (by omega) (by omega)]

/-- Words with the same code and the same digits for the slots asked for are decoded alike. -/
theorem decodeWord_congr (hcode : codeOf n' = codeOf n)
    (hdigits : ∀ slot < count, modeDigit n' slot = modeDigit n slot) :
    decodeWord n' count = decodeWord n count := by
  have hmodes : modesFrom n' 0 count = modesFrom n 0 count :=
    modesFrom_congr fun i _ hi => hdigits i (by omega)
  rw [decodeWord, decodeWord, decodeCode_natCast, decodeCode_natCast, decodeModes_natCast,
    decodeModes_natCast, hcode, hmodes]

/-- What is put in front of a word does not change how it is decoded. -/
theorem decodeWord_add (n front count : Nat) :
    decodeWord (n + front * 10 ^ (count + 2) : Nat) count = decodeWord n count := by
  apply decodeWord_congr
  · rw [codeOf, codeOf, Nat.pow_add, ← Nat.mul_assoc, Nat.add_mul_mod_self_right]
  · intro slot hslot
    -- the digit stands in front of `slot + 2` others, all of them behind what was added
    obtain ⟨k, rfl⟩ := Nat.exists_eq_add_of_lt hslot
    have hplace : front * 10 ^ (slot + k + 1 + 2) = 10 ^ (slot + 2) * (front * 10 ^ k * 10) := by
      ring
    have hdigit : ∀ n, modeDigit n slot = n / 10 ^ (slot + 2) % 10 := by
      intro n
      rw [modeDigit, Nat.pow_eq, Nat.div_div_eq_div_mul, Nat.pow_add, Nat.mul_comm]
    rw [hdigit, hdigit, hplace, Nat.add_mul_div_left _ _ (Nat.pow_pos (by decide)),
      Nat.add_mul_mod_self_right]

/-! ### Words put together -/

/-- The number that modes stand for: the digit of each counts by the place of its slot. -/
def modeNumber (modes : List Mode) : Nat :=
  (modes.zipIdx.map fun (mode, slot) => mode.digit * Nat.pow 10 slot).sum

/-- The word with this code and these modes. -/
def wordOf (code : Nat) (modes : List Mode) : Nat := code + 100 * modeNumber modes

theorem modeNumber_cons (mode : Mode) (modes : List Mode) :
    modeNumber (mode :: modes) = mode.digit + 10 * modeNumber modes := by
  have hshift : ∀ p : Mode × Nat, p.1.digit * Nat.pow 10 (p.2 + 1) =
      10 * (p.1.digit * Nat.pow 10 p.2) := by
    intro p
    show p.1.digit * (Nat.pow 10 p.2 * 10) = _
    ring
  rw [modeNumber, List.zipIdx_cons, List.zipIdx_succ, List.map_cons, List.sum_cons, List.map_map,
    modeNumber, ← List.sum_map_mul_left]
  exact congrArg₂ (· + ·) (Nat.mul_one mode.digit)
    (congrArg List.sum (List.map_congr_left fun p _ => hshift p))

theorem modesFrom_of_modeNumber (h : n / 100 / 10 ^ slot = modeNumber modes) :
    modesFrom n slot modes.length = .ok modes := by
  induction modes generalizing slot with
  | nil => rfl
  | cons mode modes ih =>
      rw [modeNumber_cons] at h
      have hlt : mode.digit < 10 := by cases mode <;> decide
      have hdigit : modeDigit n slot = mode.digit := by
        rw [modeDigit, Nat.pow_eq, h]
        omega
      have hlater : n / 100 / 10 ^ (slot + 1) = modeNumber modes := by
        rw [Nat.pow_succ, ← Nat.div_div_eq_div_mul, h]
        omega
      have hmode : modeAt n slot = .ok mode := by
        rw [modeAt_eq_ok_iff, hdigit, Mode.ofDigit?_digit]
      exact bind_eq_ok.2 ⟨mode, hmode, bind_eq_ok.2 ⟨modes, ih hlater, rfl⟩⟩

/-- A word is decoded into the code and the modes that it was put together from. -/
theorem decodeWord_wordOf {code : Nat} (hcode : code < 100) (modes : List Mode) :
    decodeWord (wordOf code modes) modes.length = .ok (code, modes) := by
  have hcodeOf : codeOf (wordOf code modes) = code := by
    rw [codeOf, wordOf]
    omega
  have hmodes : modesFrom (wordOf code modes) 0 modes.length = .ok modes := by
    apply modesFrom_of_modeNumber
    rw [wordOf]
    omega
  rw [decodeWord, decodeCode_natCast, decodeModes_natCast, hcodeOf, hmodes]
  rfl

/-! ### The rule for texts -/

open Reference (wordText opcode mode? character?)

theorem character?_eq_reverse (n slot : Nat) :
    character? n slot = (wordText n).reverse[slot + 2]? := by
  unfold character?
  split
  · rename_i hshort
    exact (List.getElem?_eq_none (by rw [List.length_reverse]; omega)).symm
  · rename_i hlong
    have hplace : (wordText n).length - 3 - slot = (wordText n).length - 1 - (slot + 2) := by
      omega
    rw [List.getElem?_reverse (by omega), hplace]

/-- The digit for a slot is the value of its character. -/
theorem modeDigit_eq_elim (n slot : Nat) :
    modeDigit n slot = (character? n slot).elim 0 fun c => Nat.ofDigitChars 10 [c] 0 := by
  rcases Reference.character?_cases n slot with ⟨hnone, hzero⟩ | hsome
  · rw [hnone, hzero]
    rfl
  · rw [hsome, Option.elim_some,
      Nat.ofDigitChars_cons_digitChar_of_lt_ten (modeDigit_lt n slot), Nat.ofDigitChars_nil]
    omega

/-- A digit is that of a mode if its character is, or if there is none. -/
theorem modeDigit_le_iff :
    modeDigit n slot ≤ 2 ↔ ∀ c, character? n slot = some c → c ∈ ['0', '1', '2'] := by
  rcases Reference.character?_cases n slot with ⟨hnone, hzero⟩ | hsome
  · rw [hnone, hzero]
    exact iff_of_true (by decide) nofun
  · have hlt := modeDigit_lt n slot
    rw [hsome]
    generalize modeDigit n slot = digit at hlt
    simp only [Option.some.injEq, forall_eq']
    match digit, hlt with
    | 0, _ | 1, _ | 2, _ | 3, _ | 4, _ | 5, _ | 6, _ | 7, _ | 8, _ | 9, _ => decide

theorem lt_modeDigit_iff :
    2 < modeDigit n slot ↔ ∃ c, character? n slot = some c ∧ c ∉ ['0', '1', '2'] := by
  rw [← Nat.not_le, modeDigit_le_iff]
  push Not
  rfl

theorem decodeModes_eq_ok_iff :
    decodeModes n count = .ok modes ↔ (List.range count).map (mode? n) = modes.map some := by
  rw [decodeModes_natCast, modesFrom_eq_ok_iff, List.range_eq_range']
  simp only [← Reference.mode?_eq_ofDigit?]

theorem decodeModes_eq_error_iff :
    decodeModes n count = .error fault ↔
      ∃ slot < count, ∃ c, character? n slot = some c ∧ c ∉ ['0', '1', '2'] ∧
        (∀ earlier < slot, ∀ c, character? n earlier = some c → c ∈ ['0', '1', '2']) ∧
        fault = { cause := .unknownMode (Nat.ofDigitChars 10 [c] 0) } := by
  rw [decodeModes_natCast, modesFrom_eq_error_iff]
  simp only [modeDigit_le_iff]
  constructor
  · rintro ⟨slot, hslot, hdigit, hearlier, rfl⟩
    obtain ⟨c, hc, hnone⟩ := lt_modeDigit_iff.1 hdigit
    exact ⟨slot, hslot, c, hc, hnone, hearlier, by rw [modeDigit_eq_elim, hc, Option.elim_some]⟩
  · rintro ⟨slot, hslot, c, hc, hnone, hearlier, rfl⟩
    exact ⟨slot, hslot, lt_modeDigit_iff.2 ⟨c, hc, hnone⟩, hearlier,
      by rw [modeDigit_eq_elim, hc, Option.elim_some]⟩

/-- Modes cannot be read if one of the characters stands for none. -/
theorem decodeModes_fails_iff :
    (∃ fault, decodeModes n count = .error fault) ↔
      ∃ slot < count, ∃ c, character? n slot = some c ∧ c ∉ ['0', '1', '2'] := by
  constructor
  · intro h
    obtain ⟨fault, hfault⟩ := h
    obtain ⟨slot, hslot, c, hc, hnone, -⟩ := decodeModes_eq_error_iff.1 hfault
    exact ⟨slot, hslot, c, hc, hnone⟩
  · intro h
    obtain ⟨slot, hslot, hchar⟩ := h
    cases hmodes : decodeModes n count with
    | error fault => exact ⟨fault, rfl⟩
    | ok modes =>
        -- had all modes been read, this one would be among them
        have hmem : mode? n slot ∈ modes.map some :=
          decodeModes_eq_ok_iff.1 hmodes ▸ List.mem_map_of_mem (List.mem_range.2 hslot)
        obtain ⟨mode, -, hmode⟩ := List.mem_map.1 hmem
        rw [Reference.mode?_eq_ofDigit?,
          ofDigit?_eq_none_iff.2 (lt_modeDigit_iff.2 hchar)] at hmode
        cases hmode

/-- Words whose texts end alike have the same code and the same digits there. -/
theorem decodeWord_of_tail {front front' tail : List Char} (htext : wordText n = front ++ tail)
    (htext' : wordText n' = front' ++ tail) (htail : count + 2 ≤ tail.length) :
    decodeWord n' count = decodeWord n count := by
  have hlast : ∀ {n : Nat} {front : List Char}, wordText n = front ++ tail →
      codeOf n = Nat.ofDigitChars 10 (tail.drop (tail.length - 2)) 0 ∧
        ∀ slot < count, character? n slot = tail.reverse[slot + 2]? := by
    intro n front htext
    constructor
    · have hdrop : (front ++ tail).length - 2 = front.length + (tail.length - 2) := by
        rw [List.length_append]
        omega
      rw [← Reference.opcode_eq_codeOf, opcode, htext, hdrop, List.drop_append,
        Nat.add_sub_cancel_left, List.drop_eq_nil_of_le (Nat.le_add_right _ _), List.nil_append]
    · intro slot hslot
      rw [character?_eq_reverse, htext, List.reverse_append,
        List.getElem?_append_left (by rw [List.length_reverse]; omega)]
  obtain ⟨hcode, hchars⟩ := hlast htext
  obtain ⟨hcode', hchars'⟩ := hlast htext'
  apply decodeWord_congr (hcode'.trans hcode.symm)
  intro slot hslot
  rw [modeDigit_eq_elim, modeDigit_eq_elim, hchars slot hslot, hchars' slot hslot]

/-- **Words are decoded by the rule for their decimal texts.** The code of a word is its last two
characters. Its modes are those of the characters in the positions of the slots, position mode where
there is none; a character that stands for no mode is a fault, and the one of the least slot is
named. Characters further to the left never matter, so a word put together from a code and modes,
with any number in front of them, is taken apart into that code and those modes. -/
theorem decode_by_text (n count : Nat) :
    decodeCode n = .ok (opcode n) ∧
    (∀ modes, decodeModes n count = .ok modes ↔
      (List.range count).map (mode? n) = modes.map some) ∧
    ((∃ fault, decodeModes n count = .error fault) ↔
      ∃ slot < count, ∃ c, character? n slot = some c ∧ c ∉ ['0', '1', '2']) ∧
    (∀ fault, decodeModes n count = .error fault ↔
      ∃ slot < count, ∃ c, character? n slot = some c ∧ c ∉ ['0', '1', '2'] ∧
        (∀ earlier < slot, ∀ c, character? n earlier = some c → c ∈ ['0', '1', '2']) ∧
        fault = { cause := .unknownMode (Nat.ofDigitChars 10 [c] 0) }) ∧
    (∀ (n' : Nat) (front front' tail : List Char), wordText n = front ++ tail →
      wordText n' = front' ++ tail → count + 2 ≤ tail.length →
      decodeWord n' count = decodeWord n count) ∧
    ∀ code < 100, ∀ (modes : List Mode) (front : Nat),
      decodeWord (wordOf code modes + front * 10 ^ (modes.length + 2) : Nat) modes.length =
        .ok (code, modes) := by
  refine ⟨?_, fun modes => decodeModes_eq_ok_iff, decodeModes_fails_iff,
    fun fault => decodeModes_eq_error_iff, ?_, ?_⟩
  · rw [decodeCode_natCast, Reference.opcode_eq_codeOf]
  · intro n' front front' tail htext htext' htail
    exact decodeWord_of_tail htext htext' htail
  · intro code hcode modes front
    rw [decodeWord_add, decodeWord_wordOf hcode]

/-- A word with two characters that stand for no mode: beyond the one operand asked for they do not
matter, and of three operands the lower slot is named. And a word with a number in front of it. -/
theorem decode_by_text_two_bad_digits :
    decodeWord 74105 1 = .ok (5, [.immediate]) ∧
      decodeModes 74105 3 = .error { cause := .unknownMode 4 } ∧
      decodeWord 9921002 3 = .ok (2, [.position, .immediate, .relative]) := by
  obtain ⟨-, -, -, hfails, -, -⟩ := decode_by_text 74105 3
  obtain ⟨-, -, -, -, htail, -⟩ := decode_by_text 105 1
  obtain ⟨-, -, -, -, -, hround⟩ := decode_by_text 0 0
  refine ⟨?_, ?_, ?_⟩
  · exact htail 74105 [] ['7', '4'] ['1', '0', '5'] rfl rfl (by decide)
  · refine (hfails _).2 ⟨1, by decide, '4', rfl, by decide, ?_, rfl⟩
    intro earlier hlt c hc
    obtain rfl := Nat.lt_one_iff.1 hlt
    have hone : character? 74105 0 = some '1' := rfl
    obtain rfl := Option.some.inj (hone.symm.trans hc)
    decide
  · exact hround 2 (by decide) [.position, .immediate, .relative] 99

end CellMachine
