import Mathlib.Data.List.Forall2
import Mathlib.Data.List.Induction
import CellMachine.Proofs.Image.Overlong
import CellMachine.Proofs.Image.Patch

/-!
# CellMachine.Proofs.Image.Loading

**Where an image comes from, and what can keep it away.** A file that holds a program loads, unless
an integer in it has too many digits (`load_eq_ok_iff`), and what else keeps a file from it is
reported (`isReported_of_load`). Cells to overwrite are integers around the first equals sign
(`parse_eq_ok_iff`). As long as there is room for them they are overwritten, unless one of them has
a negative address, and that is reported, too (`exists_patch`, `exists_negativePatch`).
-/

namespace CellMachine

variable {limit : DigitLimit} {file : Except ReadError String} {path : FilePath} {image : Image}
variable {reason : LoadError} {cell : String} {cells : List String} {pair : Int × Int}
variable {pairs : List (Int × Int)}

namespace Image

/-! ### Files -/

/-- The file can be read and its text is a program for this image. -/
def Loads (file : Except ReadError String) (image : Image) : Prop :=
  ∃ text, file = .ok text ∧ IsProgram text.toList image

/-- The file can be read, and reading its text comes to an integer of too many digits. -/
def OverlongFile (limit : DigitLimit) (file : Except ReadError String) : Prop :=
  ∃ text, file = .ok text ∧
    Overlong limit (Text.expandTabs (Text.unifyNewlines text.toList))

/-- The bytes of a text hold this text. -/
theorem textOfBytes?_toUTF8 (text : String) :
    textOfBytes? text.toUTF8 = some (.ofList (Text.unifyNewlines text.toList)) := by
  have hbytes : String.fromUTF8? text.toUTF8 = some text := dif_pos text.isValidUTF8
  rw [textOfBytes?, hbytes, Option.map_some]

/-- A file of decimals has an integer that is not read if one of them is not written. -/
theorem overlongFile_decimals_iff (v : Int) (vs : List Int) :
    OverlongFile limit (.ok (",".intercalate ((v :: vs).map toString))) ↔
      ∃ x ∈ v :: vs, limit.writes x = false := by
  have hunify := Text.unifyNewlines_of_no_return
    (not_mem_decimals (c := '\r') rfl (by decide) (by decide) v vs)
  rw [← overlong_decimals_iff]
  constructor
  · intro h
    obtain ⟨text, heq, hover⟩ := h
    obtain rfl := Except.ok.inj heq
    rwa [hunify] at hover
  · intro h
    exact ⟨_, rfl, by rwa [hunify]⟩

/-- A decimal is a program of one cell. -/
theorem loads_decimal (v : Int) : Loads (.ok v.repr) [v] := ⟨_, rfl, isProgram_decimals v []⟩

theorem overlongFile_decimal_iff (v : Int) :
    OverlongFile limit (.ok v.repr) ↔ limit.writes v = false :=
  (overlongFile_decimals_iff v []).trans (by simp)

/-- Integers between commas. -/
def listed (values : List Int) : String := ",".intercalate (values.map toString)

/-- Small integers between commas are a program that loads under every limit. -/
theorem loads_listed (limit : DigitLimit) (values : List Int) (hne : values ≠ [])
    (h : ∀ v ∈ values, v.natAbs < Nat.pow 10 4) :
    Loads (.ok (listed values)) values ∧ ¬OverlongFile limit (.ok (listed values)) := by
  obtain ⟨value, values, rfl⟩ := List.exists_cons_of_ne_nil hne
  refine ⟨⟨_, rfl, isProgram_decimals value values⟩, ?_⟩
  intro hover
  obtain ⟨v, hv, hwrites⟩ := (overlongFile_decimals_iff value values).1 hover
  rw [limit.writes_of_lt (by decide) (h v hv)] at hwrites
  cases hwrites

/-- What loading comes to, given what the file holds. -/
theorem outcome_load (hnul : path.hasNul = false) :
    (load limit path (file.map String.toUTF8)).outcome =
      match file with
      | .error reason => .error (.unreadable path reason)
      | .ok text => (ofTextWithin limit (.ofList (Text.unifyNewlines text.toList))).outcome := by
  cases file with
  | error reason =>
      simp only [load, hnul, Except.map, Logged.outcome_bind, Logged.outcome_note, Except.bind,
        Bool.false_eq_true, if_false, Logged.outcome_fail]
  | ok text =>
      simp only [load, hnul, Except.map, Logged.outcome_bind, Logged.outcome_note, Except.bind,
        Bool.false_eq_true, if_false, textOfBytes?_toUTF8]

/-- An integer of too many digits keeps a file from loading. -/
theorem load_of_overlong (hnul : path.hasNul = false) (h : OverlongFile limit file) :
    ∃ refusal, (load limit path (file.map String.toUTF8)).outcome = .error (.overlong refusal) := by
  obtain ⟨text, rfl, hover⟩ := h
  rw [outcome_load hnul]
  refine exists_overlong ?_
  rwa [String.toList_ofList]

/-- A file loads exactly if it holds a program with no integer of too many digits. -/
theorem load_eq_ok_iff (hnul : path.hasNul = false) :
    (load limit path (file.map String.toUTF8)).outcome = .ok image ↔
      Loads file image ∧ ¬OverlongFile limit file := by
  by_cases hover : OverlongFile limit file
  · obtain ⟨refusal, hload⟩ := load_of_overlong hnul hover
    rw [hload]
    exact iff_of_false (by simp) fun h => h.2 hover
  · rw [outcome_load hnul]
    cases file with
    | error reason => simp [Loads]
    | ok text =>
        have hshort : ¬Overlong limit
            (Text.expandTabs (String.ofList (Text.unifyNewlines text.toList)).toList) := by
          rw [String.toList_ofList]
          exact fun h => hover ⟨text, rfl, h⟩
        simp only [ofTextWithin_of_short hshort, ofText_eq_ok_iff, String.toList_ofList, Loads,
          Except.ok.injEq, exists_eq_left', hover, not_false_eq_true, and_true]
        exact (isProgram_iff_respaced (respaced_unifyNewlines _)).symm

theorem Loads.unique {image' : Image} (h : Loads file image) (h' : Loads file image') :
    image = image' := by
  obtain ⟨text, rfl, htext⟩ := h
  obtain ⟨text', heq, htext'⟩ := h'
  obtain rfl := Except.ok.inj heq
  exact Except.ok.inj ((ofText_eq_ok_iff.2 htext).symm.trans (ofText_eq_ok_iff.2 htext'))

/-- What keeps a file from loading is reported, but for an integer of too many digits. -/
theorem isReported_of_load (hnul : path.hasNul = false) (hshort : ¬OverlongFile limit file)
    (h : (load limit path (file.map String.toUTF8)).outcome = .error reason) :
    reason.isReported = true := by
  rw [outcome_load hnul] at h
  cases file with
  | error readError =>
      obtain rfl := Except.error.inj h
      rfl
  | ok text =>
      have hshort : ¬Overlong limit
          (Text.expandTabs (String.ofList (Text.unifyNewlines text.toList)).toList) := by
        rw [String.toList_ofList]
        exact fun h => hshort ⟨text, rfl, h⟩
      simp only [ofTextWithin_of_short hshort, outcome_ofText] at h
      cases hparse : parse (.ofList (Text.unifyNewlines text.toList)) with
      | error malformed =>
          rw [hparse] at h
          obtain rfl := Except.error.inj h
          rfl
      | ok image =>
          rw [hparse] at h
          cases h

/-- Loading a file notes no integers. -/
theorem notes_of_load {limit' : DigitLimit} {content : Except ReadError ByteArray} :
    ∀ e ∈ (load limit path content).log, limit'.notes e = true := by
  have hparsed : ∀ text : String, ∀ e ∈ (ofTextWithin limit text).log, limit'.notes e = true := by
    intro text e he
    unfold ofTextWithin ofText at he
    split at he
    · cases he
    · split at he
      · cases he
      · rw [List.mem_singleton.1 he]
        rfl
  unfold load
  refine Logged.forall_log_bind ?_ ?_
  · intro e he
    rw [List.mem_singleton.1 he]
    rfl
  · intro _ _
    split
    · simp
    · split
      · simp
      · split
        · simp
        · exact hparsed _

/-- The wording of what keeps a file from loading has no integers. -/
theorem integers_of_load {content : Except ReadError ByteArray}
    (h : (load limit path content).outcome = .error reason) : reason.integers = [] := by
  have hmalformed : ∀ text : String, (ofTextWithin limit text).outcome = .error reason →
      reason.integers = [] := by
    intro text h
    unfold ofTextWithin ofText at h
    split at h
    · obtain rfl := Except.error.inj h
      rfl
    · split at h
      · obtain rfl := Except.error.inj h
        rfl
      · cases h
  unfold load at h
  rw [Logged.bind_of_ok (Logged.outcome_note _)] at h
  dsimp only at h
  split at h
  · obtain rfl := Except.error.inj h
    rfl
  · split at h
    · obtain rfl := Except.error.inj h
      rfl
    · split at h
      · obtain rfl := Except.error.inj h
        rfl
      · exact hmalformed _ h

end Image

/-! ### Cells -/

namespace Cells

/-- A cell as it is written: an address, an equals sign and a value. -/
def IsCell (limit : DigitLimit) (cell : String) (pair : Int × Int) : Prop :=
  ∃ left right, cell.toList = left ++ '=' :: right ∧ '=' ∉ left ∧
    Text.Numeral.parse? (.ofList left) limit = some pair.1 ∧
    Text.Numeral.parse? (.ofList right) limit = some pair.2

/-- A text is read as a cell exactly if it is written as one. -/
theorem parseCell_eq_ok_iff : parseCell cell limit = .ok pair ↔ IsCell limit cell pair := by
  constructor
  · intro h
    unfold parseCell at h
    have hsplit := List.takeWhile_append_dropWhile (p := (· ≠ '=')) (l := cell.toList)
    have hhead := List.head?_dropWhile_not (· ≠ '=') cell.toList
    cases hrest : cell.toList.dropWhile (· ≠ '=') with
    | nil =>
        simp only [hrest] at h
        cases h
    | cons c right =>
        rw [hrest] at hsplit hhead
        simp only [hrest] at h
        obtain rfl : c = '=' := by simpa using hhead
        refine ⟨cell.toList.takeWhile (· ≠ '='), right, hsplit.symm, ?_, ?_⟩
        · intro hmem
          simpa using List.mem_takeWhile_imp hmem
        · split at h
          · rename_i address value haddress hvalue
            obtain rfl := Except.ok.inj h
            exact ⟨haddress, hvalue⟩
          · cases h
  · intro h
    obtain ⟨left, right, hcell, hleft, haddress, hvalue⟩ := h
    have hpass : ∀ c ∈ left, decide (c ≠ '=') = true := by
      intro c hc
      exact decide_eq_true fun heq => hleft (heq ▸ hc)
    have htake : cell.toList.takeWhile (· ≠ '=') = left := by
      rw [hcell, List.takeWhile_append_of_pos hpass]
      simp
    have hdrop : cell.toList.dropWhile (· ≠ '=') = '=' :: right := by
      rw [hcell, List.dropWhile_append_of_pos hpass]
      simp
    simp only [parseCell, htake, hdrop, haddress, hvalue]

/-- Reading one after another ends well if each reading does. -/
theorem mapM_eq_ok_iff {α β ε : Type} {f : α → Except ε β} {as : List α} {bs : List β} :
    as.mapM f = .ok bs ↔ List.Forall₂ (fun a b => f a = .ok b) as bs := by
  induction as generalizing bs with
  | nil => simp [pure, Except.pure, eq_comm]
  | cons a as ih =>
      simp only [List.mapM_cons, List.forall₂_cons_left_iff, ← ih]
      cases ha : f a with
      | error e => simp [bind, Except.bind]
      | ok b =>
          cases as.mapM f with
          | error e => simp [bind, Except.bind]
          | ok later => simp [bind, Except.bind, pure, Except.pure, eq_comm]

/-- The texts of a list are read as cells exactly if each is written as one. -/
theorem mapM_parseCell_eq_ok_iff :
    cells.mapM (parseCell · limit) = .ok pairs ↔ List.Forall₂ (IsCell limit) cells pairs := by
  simp only [mapM_eq_ok_iff, parseCell_eq_ok_iff]

theorem parse_eq_ok_iff {map : Cells} :
    parse cells limit = .ok map ↔
      ∃ pairs, List.Forall₂ (IsCell limit) cells pairs ∧ map = ofPairs pairs := by
  simp only [← mapM_parseCell_eq_ok_iff]
  unfold parse
  cases cells.mapM (parseCell · limit) with
  | error e => simp [bind, Except.bind]
  | ok pairs => simp [bind, Except.bind, pure, Except.pure, eq_comm]

theorem cells_unique {pairs' : List (Int × Int)} (h : List.Forall₂ (IsCell limit) cells pairs)
    (h' : List.Forall₂ (IsCell limit) cells pairs') : pairs = pairs' :=
  Except.ok.inj ((mapM_parseCell_eq_ok_iff.2 h).symm.trans (mapM_parseCell_eq_ok_iff.2 h'))

theorem exists_cells_iff :
    (∃ pairs, List.Forall₂ (IsCell limit) cells pairs) ↔
      ∀ cell ∈ cells, ∃ pair, IsCell limit cell pair := by
  constructor
  · intro h
    obtain ⟨pairs, hpairs⟩ := h
    induction hpairs with
    | nil => simp
    | cons hpair _ ih => exact List.forall_mem_cons.2 ⟨⟨_, hpair⟩, ih⟩
  · intro h
    choose! f hf using h
    exact ⟨cells.map f, List.forall₂_map_right_iff.2 (List.forall₂_same.2 hf)⟩

/-- The address and the value of a cell that is read can be written. -/
theorem writes_of_isCell (h : IsCell limit cell pair) :
    limit.writes pair.1 = true ∧ limit.writes pair.2 = true := by
  obtain ⟨left, right, -, -, hleft, hright⟩ := h
  exact ⟨Text.Numeral.writes_of_parse? hleft, Text.Numeral.writes_of_parse? hright⟩

/-- So it is with each of a list of cells. -/
theorem writes_of_cells (h : List.Forall₂ (IsCell limit) cells pairs) :
    ∀ pair ∈ pairs, limit.writes pair.1 = true ∧ limit.writes pair.2 = true := by
  induction h with
  | nil => simp
  | cons hcell _ ih => exact List.forall_mem_cons.2 ⟨writes_of_isCell hcell, ih⟩

/-! ### Room -/

/-- The addresses of a map after one of them was given a value. -/
theorem map_fst_assign (cells : Cells) (address value : Int) :
    (cells.assign address value).map Prod.fst =
      if address ∈ cells.map Prod.fst then cells.map Prod.fst
      else cells.map Prod.fst ++ [address] := by
  induction cells with
  | nil => rfl
  | cons cell cells ih =>
      obtain ⟨a, v⟩ := cell
      unfold assign
      by_cases h : a = address
      · rw [if_pos h, if_pos (by simp [h])]
        rfl
      · have hne : address ≠ a := fun heq => h heq.symm
        simp only [if_neg h, List.map_cons, ih, List.mem_cons, hne, false_or]
        split <;> rfl

theorem ofPairs_concat (pairs : List (Int × Int)) (pair : Int × Int) :
    ofPairs (pairs ++ [pair]) = (ofPairs pairs).assign pair.1 pair.2 := by
  rw [ofPairs, List.foldl_append]
  rfl

/-- The map has the addresses of the list. -/
theorem mem_ofPairs {a : Int} : a ∈ (ofPairs pairs).map Prod.fst ↔ a ∈ pairs.map Prod.fst := by
  induction pairs using List.reverseRecOn with
  | nil => rfl
  | append_singleton pairs pair ih =>
      rw [ofPairs_concat, map_fst_assign, List.map_append, List.mem_append, ← ih]
      split
      · rename_i hold
        refine (or_iff_left_of_imp ?_).symm
        intro hpair
        rwa [List.mem_singleton.1 hpair]
      · exact List.mem_append

/-- Lists with the same addresses agree in what is said of the addresses. -/
theorem exists_cell_congr {cells cells' : List (Int × Int)}
    (h : ∀ a, a ∈ cells'.map Prod.fst ↔ a ∈ cells.map Prod.fst) (P : Int → Prop) :
    (∃ cell ∈ cells', P cell.1) ↔ ∃ cell ∈ cells, P cell.1 := by
  have haddress : ∀ L : List (Int × Int), (∃ cell ∈ L, P cell.1) ↔ ∃ a ∈ L.map Prod.fst, P a := by
    intro L
    simp
  simp only [haddress, h]

/-- A map has no cells but those of the list. -/
theorem subset_of_ofPairs (pairs : List (Int × Int)) : ofPairs pairs ⊆ pairs := by
  have hassign : ∀ (cells : Cells) (pair : Int × Int),
      cells.assign pair.1 pair.2 ⊆ cells ++ [pair] := by
    intro cells pair
    induction cells with
    | nil => simp [assign]
    | cons cell cells ih =>
        unfold assign
        split
        · rename_i haddress
          simp [haddress]
        · exact List.cons_subset_cons _ ih
  induction pairs using List.reverseRecOn with
  | nil => exact List.Subset.refl _
  | append_singleton pairs pair ih =>
      rw [ofPairs_concat]
      refine List.Subset.trans (hassign _ pair) (List.append_subset.2 ⟨?_, ?_⟩)
      · exact List.Subset.trans ih (List.subset_append_left _ _)
      · exact List.subset_append_right _ _

theorem exists_ofPairs_iff (P : Int → Prop) :
    (∃ cell ∈ ofPairs pairs, P cell.1) ↔ ∃ pair ∈ pairs, P pair.1 :=
  exists_cell_congr (fun _ => mem_ofPairs) P

end Cells

namespace Image

/-- There is room for the cells that are overwritten, up to the first with a negative address. -/
def HasRoom (room : Nat) (image : Image) (cells : Cells) : Prop :=
  ∀ cell ∈ cells.takeWhile fun cell => 0 ≤ cell.1, cell.1 < image.length + capacity room

/-- Only cells that have addresses can be overwritten. -/
theorem nonneg_of_patch {patched : Image} {cells : Cells}
    (h : (patch room image cells).outcome = .ok patched) : ∀ cell ∈ cells, 0 ≤ cell.1 := by
  induction cells generalizing image with
  | nil => simp
  | cons cell cells ih =>
      obtain ⟨next, hnext, hlater⟩ := Logged.outcome_bind_eq_ok.1 h
      exact List.forall_mem_cons.2 ⟨(getD_patchCell hnext).1, ih hlater⟩

theorem exists_patch {cells : Cells} (hcells : ∀ cell ∈ cells, 0 ≤ cell.1)
    (hroom : HasRoom room image cells) :
    ∃ patched, (patch room image cells).outcome = .ok patched := by
  cases hpatch : (patch room image cells).outcome with
  | ok patched => exact ⟨patched, rfl⟩
  | error reason =>
      obtain ⟨-, far, hmem, hfar⟩ := patch_error hcells hpatch
      have hall : (cells.takeWhile fun cell => 0 ≤ cell.1) = cells := by
        simpa using hcells
      have hlt := hroom far (by rwa [hall])
      have hnonneg := hcells far hmem
      omega

/-- Only cells that are overwritten are noted. -/
theorem exists_cell_of_patch {room : Nat} {cells : Cells} {e : Event}
    (h : e ∈ (patch room image cells).log) :
    ∃ cell ∈ cells, 0 ≤ cell.1 ∧ e = .patching cell.1.toNat cell.2 := by
  induction cells generalizing image with
  | nil => cases h
  | cons cell cells ih =>
      have hcell : ∀ e ∈ (patchCell room image cell.1 cell.2).log,
          0 ≤ cell.1 ∧ e = .patching cell.1.toNat cell.2 := by
        intro e he
        unfold patchCell at he
        split at he
        · cases he
        · rename_i hneg
          split at he
          · cases he
          · exact ⟨Int.not_lt.1 hneg, List.mem_singleton.1 he⟩
      cases hnext : (patchCell room image cell.1 cell.2).outcome with
      | error reason =>
          rw [patch, Logged.bind_of_error hnext] at h
          exact ⟨cell, by simp, hcell e h⟩
      | ok next =>
          rw [patch, Logged.bind_of_ok hnext] at h
          rcases List.mem_append.1 h with h | h
          · exact ⟨cell, by simp, hcell e h⟩
          · obtain ⟨later, hmem, hlater⟩ := ih h
            exact ⟨later, List.mem_cons_of_mem _ hmem, hlater⟩

/-- Whatever cells are read under a limit, that they are overwritten is noted under it. -/
theorem notes_of_patch {room : Nat} (hcells : List.Forall₂ (Cells.IsCell limit) cells pairs) :
    ∀ e ∈ (patch room image (Cells.ofPairs pairs)).log, limit.notes e = true := by
  intro e he
  obtain ⟨pair, hpair, hnonneg, rfl⟩ := exists_cell_of_patch he
  obtain ⟨haddress, hvalue⟩ :=
    Cells.writes_of_cells hcells pair (Cells.subset_of_ofPairs pairs hpair)
  rw [DigitLimit.notes, Event.integers, Int.toNat_of_nonneg hnonneg]
  simp [haddress, hvalue]

/-- The first negative address of a list of cells. -/
def firstNegative? (cells : Cells) : Option Int := (cells.map Prod.fst).find? (· < 0)

/-- The first negative address keeps an image from being patched, and is named. -/
theorem patch_of_firstNegative {cells : Cells} {address : Int}
    (haddress : firstNegative? cells = some address) (hroom : HasRoom room image cells) :
    (patch room image cells).outcome = .error (.negativePatch address) := by
  induction cells generalizing image with
  | nil => cases haddress
  | cons cell cells ih =>
      rw [firstNegative?, List.map_cons, List.find?_cons] at haddress
      by_cases hneg : cell.1 < 0
      · rw [decide_eq_true hneg] at haddress
        obtain rfl := Option.some.inj haddress
        refine Logged.outcome_bind_eq_error.2 (.inl ?_)
        rw [patchCell, if_pos hneg]
        rfl
      · rw [decide_eq_false hneg] at haddress
        have htake : ((cell :: cells).takeWhile fun cell => 0 ≤ cell.1) =
            cell :: cells.takeWhile fun cell => 0 ≤ cell.1 :=
          List.takeWhile_cons_of_pos (by simpa using hneg)
        rw [HasRoom, htake] at hroom
        obtain ⟨hhere, hlater⟩ := List.forall_mem_cons.1 hroom
        have hgrowth : growthError? room (image.missing cell.1.toNat) = none := by
          rw [growthError?_eq_none_iff, missing]
          omega
        have hcell : (patchCell room image cell.1 cell.2).outcome =
            .ok ((image.extendTo cell.1.toNat).set cell.1.toNat cell.2) := by
          rw [patchCell, if_neg hneg, hgrowth]
        have hlength := length_le_of_patchCell hcell
        have hroom' : HasRoom room ((image.extendTo cell.1.toNat).set cell.1.toNat cell.2)
            cells := by
          intro c hc
          have hc' := hlater c hc
          omega
        exact Logged.outcome_bind_eq_error.2 (.inr ⟨_, hcell, ih haddress hroom'⟩)

theorem firstNegative?_eq_none_iff {cells : Cells} :
    firstNegative? cells = none ↔ ∀ cell ∈ cells, 0 ≤ cell.1 := by
  simp [firstNegative?]

theorem exists_negativePatch {cells : Cells} (hcells : ∃ cell ∈ cells, cell.1 < 0)
    (hroom : HasRoom room image cells) :
    ∃ cell ∈ cells, (patch room image cells).outcome = .error (.negativePatch cell.1) := by
  cases haddress : firstNegative? cells with
  | none =>
      obtain ⟨cell, hcell, hneg⟩ := hcells
      exact absurd hneg (Int.not_lt.2 (firstNegative?_eq_none_iff.1 haddress cell hcell))
  | some address =>
      obtain ⟨cell, hcell, rfl⟩ := List.mem_map.1 (List.mem_of_find?_eq_some haddress)
      exact ⟨cell, hcell, patch_of_firstNegative haddress hroom⟩

end Image

end CellMachine
