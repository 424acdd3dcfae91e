import CellMachine.Ascii

/-!
# CellMachine.Proofs.Text.Ascii

**Text and values, in both directions.** Values split in one way only into an ASCII text and a rest
that starts with no ASCII code, and decoding finds it (`decode_eq_iff`). Encoded, a text is its code
points and those of the newline that closes it (`encode_eq_codes`). So what is encoded and decoded
again is split where the text stops being ASCII, and comes back whole if it never does
(`decode_exact`).
-/

namespace CellMachine.Ascii

variable {values rest : List Int} {text : String} {closed : Bool}

/-- All characters of the text are ASCII. -/
def IsAscii (text : String) : Prop := ∀ c ∈ text.toList, c.toNat < 128

/-- The values are the code points of an ASCII text, and then a rest that starts with no ASCII
code. -/
structure Splits (values : List Int) (text : String) (rest : List Int) : Prop where
  whole : codes text ++ rest = values
  ascii : IsAscii text
  stops : ∀ value, rest.head? = some value → value < 0 ∨ 128 ≤ value

/-- The newline that closes a text, if one is wanted and the text does not end with one. -/
def closing (text : String) (closed : Bool) : String :=
  if closed = true ∧ text.toList.getLast? ≠ some '\n' then "\n" else ""

/-! ### Codes -/

theorem isCode_iff {value : Int} : isCode value = true ↔ 0 ≤ value ∧ value < 128 := by
  rw [isCode, Bool.and_eq_true, decide_eq_true_iff, decide_eq_true_iff]
  rfl

theorem codes_append (s t : String) : codes (s ++ t) = codes s ++ codes t := by
  simp [codes]

theorem isAscii_append {s t : String} : IsAscii (s ++ t) ↔ IsAscii s ∧ IsAscii t := by
  simp [IsAscii, or_imp, forall_and]

theorem isAscii_closing (text : String) (closed : Bool) : IsAscii (closing text closed) := by
  unfold closing
  split <;> simp [IsAscii]

theorem isAscii_iff_isCode : IsAscii text ↔ ∀ value ∈ codes text, isCode value = true := by
  simp only [codes, List.forall_mem_map, isCode_iff, IsAscii]
  refine forall₂_congr fun c _ => ?_
  omega

theorem map_character_codes (text : String) : (codes text).map character = text.toList := by
  simp [codes, character, Function.comp_def]

/-! ### Decoding -/

theorem decode_of_splits (h : Splits values text rest) : decode values = (text, rest) := by
  obtain ⟨rfl, hascii, hstops⟩ := h
  have hcodes := isAscii_iff_isCode.1 hascii
  have hrest : rest.takeWhile isCode = [] ∧ rest.dropWhile isCode = rest := by
    cases rest with
    | nil => exact ⟨rfl, rfl⟩
    | cons value rest =>
        have hvalue : isCode value = false := by
          rw [← Bool.not_eq_true, isCode_iff]
          have := hstops value rfl
          omega
        simp [hvalue]
  rw [decode, List.takeWhile_append_of_pos hcodes, List.dropWhile_append_of_pos hcodes, hrest.1,
    hrest.2, List.append_nil, map_character_codes, String.ofList_toList]

theorem codes_decode_fst (values : List Int) :
    codes (decode values).1 = values.takeWhile isCode :=
  List.append_cancel_right ((codes_decode values).trans List.takeWhile_append_dropWhile.symm)

theorem splits_decode (values : List Int) : Splits values (decode values).1 (decode values).2 where
  whole := codes_decode values
  ascii := by
    rw [isAscii_iff_isCode, codes_decode_fst]
    exact List.all_eq_true.1 List.all_takeWhile
  stops := by
    intro value hvalue
    have hhead := List.head?_dropWhile_not isCode values
    rw [show values.dropWhile isCode = (decode values).2 from rfl, hvalue] at hhead
    have hnot : ¬(0 ≤ value ∧ value < 128) := by
      rw [← isCode_iff, hhead]
      decide
    omega

/-- Values split in one way only, and decoding finds it. -/
theorem decode_eq_iff : decode values = (text, rest) ↔ Splits values text rest := by
  refine ⟨?_, decode_of_splits⟩
  intro h
  have hsplits := splits_decode values
  rwa [h] at hsplits

/-- No longer text is at the front of the values. -/
theorem prefix_codes_decode (hascii : IsAscii text) (h : codes text <+: values) :
    codes text <+: codes (decode values).1 := by
  obtain ⟨back, rfl⟩ := h
  rw [codes_decode_fst, List.takeWhile_append_of_pos (isAscii_iff_isCode.1 hascii)]
  exact List.prefix_append _ _

/-! ### Encoding -/

theorem getLast?_codes : (codes text).getLast? = some newline ↔ text.toList.getLast? = some '\n' := by
  rw [codes, List.getLast?_map, Option.map_eq_some_iff]
  constructor
  · intro h
    obtain ⟨c, hc, hcode⟩ := h
    have hchar : c.toNat = '\n'.toNat := Int.ofNat.inj hcode
    rw [hc, Char.toNat_inj.1 hchar]
  · intro h
    exact ⟨'\n', h, rfl⟩

/-- A text is encoded as its code points and those of the newline that closes it. -/
theorem encode_eq_codes (text : String) (closed : Bool) :
    encode text closed = codes (text ++ closing text closed) := by
  have hnewline : codes "\n" = [newline] := rfl
  have hempty : codes "" = [] := rfl
  rw [codes_append, encode, closing]
  by_cases hlast : text.toList.getLast? = some '\n'
  · have hcodes : ((codes text).getLast? != some newline) = false := by
      rw [getLast?_codes.2 hlast, bne_self_eq_false]
    simp [hlast, hcodes, hempty]
  · have hcodes : ((codes text).getLast? != some newline) = true :=
      bne_iff_ne.2 fun h => hlast (getLast?_codes.1 h)
    cases closed with
    | false => simp [hempty]
    | true => simp [hlast, hcodes, hnewline]

theorem splits_encode (h : IsAscii text) (closed : Bool) :
    Splits (encode text closed) (text ++ closing text closed) [] where
  whole := by rw [List.append_nil, encode_eq_codes]
  ascii := isAscii_append.2 ⟨h, isAscii_closing text closed⟩
  stops := by simp

/-- Where a text stops being ASCII, encoding and decoding split it. -/
theorem exists_splits_encode (h : ¬IsAscii text) (closed : Bool) :
    ∃ front c back, text = front ++ .ofList (c :: back) ∧ 128 ≤ c.toNat ∧
      Splits (encode text closed) front
        (codes (.ofList (c :: back)) ++ codes (closing text closed)) := by
  have hsplit := List.takeWhile_append_dropWhile (p := (·.toNat < 128)) (l := text.toList)
  have hhead := List.head?_dropWhile_not (·.toNat < 128) text.toList
  have hfront : IsAscii (.ofList (text.toList.takeWhile (·.toNat < 128))) := by
    rw [IsAscii, String.toList_ofList]
    exact fun c hc => of_decide_eq_true (List.all_eq_true.1 List.all_takeWhile c hc)
  cases hback : text.toList.dropWhile (·.toNat < 128) with
  | nil =>
      rw [hback, List.append_nil] at hsplit
      rw [hsplit, String.ofList_toList] at hfront
      exact absurd hfront h
  | cons c back =>
      rw [hback] at hsplit hhead
      have hc : 128 ≤ c.toNat := by simpa using hhead
      have htext : text = .ofList (text.toList.takeWhile (·.toNat < 128)) ++ .ofList (c :: back) := by
        rw [← String.ofList_append, hsplit, String.ofList_toList]
      refine ⟨_, c, back, htext, hc, ?_, hfront, ?_⟩
      · rw [← List.append_assoc, ← codes_append, ← htext, ← codes_append, encode_eq_codes]
      · intro value hvalue
        rw [codes_ofList, List.map_cons, List.cons_append, List.head?_cons,
          Option.some.injEq] at hvalue
        exact .inr (by omega)

/-- **Decoding splits without loss, and undoes encoding.** Whatever the values are, the text and the
rest that decoding finds are the only ones that values split into, no longer ASCII text is at the
front of the values, and the text encoded with the rest behind it gives them back. And whatever a
text is, encoding and decoding it gives the text, with its closing newline, and no rest exactly if
the text is ASCII; otherwise it gives what is in front of the first character that is not, and the
code points of all others as the rest. -/
theorem decode_exact :
    (∀ values text rest, decode values = (text, rest) ↔ Splits values text rest) ∧
    (∀ values, encode (decode values).1 false ++ (decode values).2 = values ∧
      ∀ front, IsAscii front → codes front <+: values →
        codes front <+: codes (decode values).1) ∧
    ∀ text closed,
      (decode (encode text closed) = (text ++ closing text closed, []) ↔ IsAscii text) ∧
      (¬IsAscii text → ∃ front c back, text = front ++ .ofList (c :: back) ∧ IsAscii front ∧
        128 ≤ c.toNat ∧ decode (encode text closed) =
          (front, codes (.ofList (c :: back)) ++ codes (closing text closed))) := by
  refine ⟨fun values text rest => decode_eq_iff, ?_, ?_⟩
  · intro values
    refine ⟨?_, fun front => prefix_codes_decode⟩
    rw [encode_eq_codes, show closing _ false = "" from rfl, String.append_empty, codes_decode]
  · intro text closed
    refine ⟨⟨?_, fun h => decode_of_splits (splits_encode h closed)⟩, ?_⟩
    · intro h
      exact (isAscii_append.1 (decode_eq_iff.1 h).ascii).1
    · intro h
      obtain ⟨front, c, back, htext, hc, hsplits⟩ := exists_splits_encode h closed
      exact ⟨front, c, back, htext, hsplits.ascii, hc, decode_of_splits hsplits⟩

/-- A text that is not ASCII throughout comes back in two parts; and values are split in front of a
negative one, or of one that is beyond all code points. -/
theorem decode_exact_in_two_parts :
    (∃ front c back, "aé" = front ++ .ofList (c :: back) ∧ IsAscii front ∧ 128 ≤ c.toNat ∧
      decode (encode "aé" true) =
        (front, codes (.ofList (c :: back)) ++ codes (closing "aé" true))) ∧
    Splits [104, 105, -1, 65] "hi" [-1, 65] ∧
    codes "h" <+: codes (decode [104, 105, 2000000]).1 := by
  have hnot : ¬IsAscii "aé" := by
    intro h
    exact absurd (h 'é' (by simp)) (by decide)
  have hfront : IsAscii "h" := by
    intro c hc
    obtain rfl : c = 'h' := by simpa using hc
    decide
  have hprefix : codes "h" <+: [104, 105, 2000000] := ⟨[105, 2000000], rfl⟩
  exact ⟨(decode_exact.2.2 "aé" true).2 hnot, (decode_exact.1 [104, 105, -1, 65] "hi" [-1, 65]).1 rfl,
    (decode_exact.2.1 [104, 105, 2000000]).2 "h" hfront hprefix⟩

end CellMachine.Ascii
