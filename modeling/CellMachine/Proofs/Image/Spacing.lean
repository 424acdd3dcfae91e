import CellMachine.Proofs.Image.Grammar

/-!
# CellMachine.Proofs.Image.Spacing

**The spacing of a program does not matter.** Unifying line ends and expanding tabs change only how
many blanks, and which, stand where blanks stand anyway (`Respaced`), and a program stays the same
program under every such change (`IsProgram.respaced`). So a text is read as the program it is,
although reading works on a copy of it whose tabs are expanded (`parse_eq_ok_iff`).
-/

namespace CellMachine.Image

variable {s t before after solid : List Char} {xs : List Int}

/-! ### Other blanks in the same places -/

/-- The same text, up to how many blanks, and which, stand where blanks stand. -/
inductive Respaced : List Char → List Char → Prop where
  /-- Both texts are at their end. -/
  | nil : Respaced [] []
  /-- Both go on with the same character. -/
  | keep {c : Char} {s t : List Char} : Respaced s t → Respaced (c :: s) (c :: t)
  /-- Both go on with blanks. -/
  | blanks {a b s t : List Char} : a ≠ [] → b ≠ [] → Blanks a → Blanks b → Respaced s t →
      Respaced (a ++ s) (b ++ t)

theorem Respaced.symm (h : Respaced s t) : Respaced t s := by
  induction h with
  | nil => exact .nil
  | keep _ ih => exact .keep ih
  | blanks ha hb hablank hbblank _ ih => exact .blanks hb ha hbblank hablank ih

theorem Respaced.eq_nil (h : Respaced [] t) : t = [] := by
  generalize hs : ([] : List Char) = s at h
  cases h with
  | nil => rfl
  | keep _ => cases hs
  | blanks ha _ _ _ _ => exact absurd (List.append_eq_nil_iff.1 hs.symm).1 ha

/-- Characters that are no blanks stand in both texts. -/
theorem Respaced.of_solid (h : Respaced (solid ++ s) t)
    (hsolid : ∀ c ∈ solid, c ∉ [' ', '\t', '\n', '\r']) :
    ∃ rest, t = solid ++ rest ∧ Respaced s rest := by
  generalize hwhole : solid ++ s = whole at h
  induction h generalizing solid with
  | nil =>
      obtain ⟨rfl, rfl⟩ := List.append_eq_nil_iff.1 hwhole
      exact ⟨[], rfl, .nil⟩
  | @keep c s' t' hrest ih =>
      cases solid with
      | nil =>
          obtain rfl : s = c :: s' := hwhole
          exact ⟨c :: t', rfl, hrest.keep⟩
      | cons d solid =>
          obtain ⟨rfl, htail⟩ := List.cons.inj hwhole
          obtain ⟨rest, rfl, hsame⟩ := ih (List.forall_mem_cons.1 hsolid).2 htail
          exact ⟨rest, rfl, hsame⟩
  | @blanks a b s' t' ha hb hablank hbblank hrest ih =>
      cases solid with
      | nil =>
          obtain rfl : s = a ++ s' := hwhole
          exact ⟨b ++ t', rfl, .blanks ha hb hablank hbblank hrest⟩
      | cons d solid =>
          cases a with
          | nil => exact absurd rfl ha
          | cons c a =>
              obtain ⟨rfl, -⟩ := List.cons.inj hwhole
              exact absurd (hablank d (by simp)) (hsolid d (by simp))

/-- Blanks at the front, in front of another character or of nothing, are blanks in both texts. -/
theorem Respaced.of_blanks (h : Respaced (before ++ s) t) (hbefore : Blanks before)
    (hs : ∀ c, s.head? = some c → c ∉ [' ', '\t', '\n', '\r']) :
    ∃ front rest, t = front ++ rest ∧ Blanks front ∧ Respaced s rest := by
  generalize hwhole : before ++ s = whole at h
  induction h generalizing before with
  | nil =>
      obtain ⟨rfl, rfl⟩ := List.append_eq_nil_iff.1 hwhole
      exact ⟨[], [], rfl, hbefore, .nil⟩
  | @keep c s' t' hrest ih =>
      cases before with
      | nil =>
          obtain rfl : s = c :: s' := hwhole
          exact ⟨[], c :: t', rfl, hbefore, hrest.keep⟩
      | cons d before =>
          obtain ⟨rfl, htail⟩ := List.cons.inj hwhole
          obtain ⟨hd, hbefore⟩ := List.forall_mem_cons.1 hbefore
          obtain ⟨front, rest, rfl, hfront, hsame⟩ := ih hbefore htail
          exact ⟨d :: front, rest, rfl, List.forall_mem_cons.2 ⟨hd, hfront⟩, hsame⟩
  | @blanks a b s' t' _ _ hablank hbblank hrest ih =>
      -- the run of blanks that is changed lies within the blanks at the front
      rcases List.append_eq_append_iff.1 hwhole with ⟨more, rfl, rfl⟩ | ⟨left, rfl, rfl⟩
      · cases more with
        | nil => exact ⟨b, t', rfl, hbblank, hrest⟩
        | cons c more => exact absurd (hablank c (by simp)) (hs c rfl)
      · obtain ⟨front, rest, rfl, hfront, hsame⟩ :=
          ih (fun c hc => hbefore c (by simp [hc])) rfl
        refine ⟨b ++ front, rest, by rw [List.append_assoc], ?_, hsame⟩
        exact List.forall_mem_append.2 ⟨hbblank, hfront⟩

/-- With other blanks in the same places a program is the same program. -/
theorem IsProgram.respaced (h : IsProgram s xs) (hspace : Respaced s t) : IsProgram t xs := by
  have hhead : ∀ {number : List Char} {v : Int}, Written number v → ∀ (tail : List Char) c,
      (number ++ tail).head? = some c → c ∉ [' ', '\t', '\n', '\r'] := by
    intro number v hnumber tail c hc
    obtain ⟨hne, hsolid⟩ := hnumber.solid
    cases number with
    | nil => exact absurd rfl hne
    | cons d number =>
        obtain rfl := Option.some.inj hc
        exact (hsolid d (by simp)).1
  induction h generalizing t with
  | @last before number after v hbefore hnumber hafter =>
      obtain ⟨front, u, rfl, hfront, hnext⟩ := hspace.of_blanks hbefore (hhead hnumber after)
      obtain ⟨w, rfl, hbehind⟩ := hnext.of_solid fun c hc => (hnumber.solid.2 c hc).1
      have hend : Respaced (after ++ []) w := by rwa [List.append_nil]
      obtain ⟨back, _, rfl, hback, hnil⟩ := hend.of_blanks hafter (by simp)
      obtain rfl := hnil.eq_nil
      rw [List.append_nil]
      exact .last hfront hnumber hback
  | @more before number after rest v vs hbefore hnumber hafter _ ih =>
      obtain ⟨front, u, rfl, hfront, hnext⟩ :=
        hspace.of_blanks hbefore (hhead hnumber (after ++ ',' :: rest))
      obtain ⟨w, rfl, hbehind⟩ := hnext.of_solid fun c hc => (hnumber.solid.2 c hc).1
      obtain ⟨back, x, rfl, hback, hcomma⟩ := hbehind.of_blanks hafter (by simp)
      have hcomma' : Respaced ([','] ++ rest) x := hcomma
      obtain ⟨later, rfl, hlater⟩ := hcomma'.of_solid (by simp)
      exact .more hfront hnumber hback (ih hlater)

theorem isProgram_iff_respaced (h : Respaced s t) : IsProgram s xs ↔ IsProgram t xs :=
  ⟨fun hs => hs.respaced h, fun ht => ht.respaced h.symm⟩

/-! ### Tabs and line ends -/

theorem respaced_expandTabsFrom (column : Nat) (s : List Char) :
    Respaced s (Text.expandTabsFrom column s) := by
  induction s generalizing column with
  | nil => exact .nil
  | cons c s ih =>
      by_cases hc : c = '\t'
      · subst hc
        rw [Text.expandTabsFrom, if_pos rfl]
        refine .blanks (a := ['\t']) (by simp) ?_ (by simp [Blanks]) ?_ (ih _)
        · intro hgap
          have hzero : Text.tabWidth - column % Text.tabWidth = 0 :=
            (List.replicate_eq_nil_iff _).1 hgap
          have hlt : column % Text.tabWidth < Text.tabWidth := Nat.mod_lt column (by decide)
          omega
        · intro d hd
          rw [(List.mem_replicate.1 hd).2]
          simp
      · rw [Text.expandTabsFrom, if_neg hc]
        exact .keep (ih _)

theorem respaced_expandTabs (s : List Char) : Respaced s (Text.expandTabs s) :=
  respaced_expandTabsFrom 0 s

theorem respaced_unifyNewlines (s : List Char) : Respaced s (Text.unifyNewlines s) := by
  fun_induction Text.unifyNewlines s with
  | case1 rest ih =>
      exact .blanks (a := ['\r', '\n']) (b := ['\n']) (by simp) (by simp) (by simp [Blanks])
        (by simp [Blanks]) ih
  | case2 rest _ ih =>
      exact .blanks (a := ['\r']) (b := ['\n']) (by simp) (by simp) (by simp [Blanks])
        (by simp [Blanks]) ih
  | case3 c rest _ _ ih => exact .keep ih
  | case4 => exact .nil

/-! ### Program texts -/

/-- Reading a text finds exactly the integers of a program. -/
theorem parse_eq_ok_iff {text : String} : parse text = .ok xs ↔ IsProgram text.toList xs := by
  rw [parse, parseExpanded_eq_ok_iff]
  exact (isProgram_iff_respaced (respaced_expandTabs _)).symm

theorem outcome_ofText (text : String) :
    (ofText text).outcome = (parse text).mapError .malformed := by
  unfold ofText
  split
  · rename_i h
    rw [h]
    rfl
  · rename_i h
    rw [h]
    rfl

theorem ofText_eq_ok_iff {text : String} :
    (ofText text).outcome = .ok xs ↔ IsProgram text.toList xs := by
  rw [outcome_ofText, ← parse_eq_ok_iff]
  cases parse text with
  | error reason => exact iff_of_false nofun nofun
  | ok image => exact ⟨fun h => congrArg _ (Except.ok.inj h), fun h => congrArg _ (Except.ok.inj h)⟩

/-- Decimals are written integers. -/
theorem written_repr (i : Int) : Written i.repr.toList i := by
  have hdigits : Digits (Nat.toDigits 10 i.natAbs) := by
    refine ⟨Nat.toDigits_ne_nil, ?_⟩
    intro c hc
    exact Char.isDigit_iff_toNat.1 (Text.isDigit_of_mem_toDigits hc)
  have hvalue : decimal (Nat.toDigits 10 i.natAbs) = i.natAbs := by
    have hread := decimal_eq (Nat.toDigits 10 i.natAbs) 0
    rw [Nat.ofDigitChars_ten_toDigits] at hread
    omega
  rw [Text.toList_repr]
  generalize Nat.toDigits 10 i.natAbs = digits at hdigits hvalue
  split
  · obtain rfl : i = -(decimal digits : Int) := by omega
    exact .minus hdigits
  · obtain rfl : i = (decimal digits : Int) := by omega
    exact .bare hdigits

/-- Decimals between commas are a program. -/
theorem isProgram_decimals (v : Int) (vs : List Int) :
    IsProgram (",".intercalate ((v :: vs).map toString)).toList (v :: vs) := by
  rw [String.toList_intercalate]
  change IsProgram ([','].intercalate _) _
  rw [← Text.join_eq_intercalate]
  have hblanks : Blanks [] := by simp [Blanks]
  induction vs generalizing v with
  | nil =>
      have h : IsProgram ([] ++ (v.repr.toList ++ [])) [v] := .last hblanks (written_repr v) hblanks
      rwa [List.nil_append, List.append_nil] at h
  | cons w ws ih =>
      have h : IsProgram ([] ++ (v.repr.toList ++ ([] ++ ',' :: _))) (v :: w :: ws) :=
        .more hblanks (written_repr v) hblanks (ih w)
      exact h

/-- **Reading accepts exactly the programs and finds exactly their integers.** Every other text is
refused as malformed. In particular decimals between commas are read back, and neither expanding
tabs nor unifying line ends changes what a text is read as. -/
theorem ofText_exact (text : String) :
    (∀ xs, (ofText text).outcome = .ok xs ↔ IsProgram text.toList xs) ∧
    ((∀ xs, ¬IsProgram text.toList xs) ↔
      ∃ reason, (ofText text).outcome = .error (.malformed reason)) ∧
    (∀ v vs, (ofText (",".intercalate ((v :: vs).map toString))).outcome = .ok (v :: vs)) ∧
    (∀ xs, (ofText (.ofList (Text.expandTabs text.toList))).outcome = .ok xs ↔
      (ofText text).outcome = .ok xs) ∧
    ∀ xs, (ofText (.ofList (Text.unifyNewlines text.toList))).outcome = .ok xs ↔
      (ofText text).outcome = .ok xs := by
  refine ⟨fun xs => ofText_eq_ok_iff, ?_, ?_, ?_, ?_⟩
  · simp only [← parse_eq_ok_iff, outcome_ofText]
    cases parse text with
    | error reason => exact iff_of_true nofun ⟨reason, rfl⟩
    | ok image => exact iff_of_false (fun h => h image rfl) nofun
  · intro v vs
    exact ofText_eq_ok_iff.2 (isProgram_decimals v vs)
  · intro xs
    rw [ofText_eq_ok_iff, ofText_eq_ok_iff, String.toList_ofList]
    exact (isProgram_iff_respaced (respaced_expandTabs _)).symm
  · intro xs
    rw [ofText_eq_ok_iff, ofText_eq_ok_iff, String.toList_ofList]
    exact (isProgram_iff_respaced (respaced_unifyNewlines _)).symm

end CellMachine.Image
