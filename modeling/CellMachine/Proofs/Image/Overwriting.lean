import CellMachine.Proofs.Image.Loading

/-!
# CellMachine.Proofs.Image.Overwriting

**In which order cells are overwritten makes no difference, but for the last value of an address.**
Once an image has an address, overwriting its cell neither fails nor extends the image, so it may
come earlier (`patch_concat_of_lt`). That is why a list of cells and the map that is made of it
patch an image alike (`patch_ofPairs`), although the map has an address where the list has it first.
As long as there is room for them, a list of cells comes down to its first negative address, which
is reported, or else to the last value of each address (`patch_congr`).
-/

namespace CellMachine

variable {room : Nat} {image patched : Image} {cells cells' : Cells} {pairs : List (Int × Int)}

namespace Cells

/-! ### Cells as they are written -/

/-- A cell as it is written. -/
def render (pair : Int × Int) : String := toString pair.1 ++ "=" ++ toString pair.2

theorem isCell_render (pair : Int × Int) : IsCell .off (render pair) pair := by
  refine ⟨pair.1.repr.toList, pair.2.repr.toList, ?_, ?_, ?_, ?_⟩
  · rw [render, String.toList_append, String.toList_append, List.append_assoc]
    rfl
  · exact Text.not_mem_repr (by decide) (by decide) pair.1
  · rw [String.ofList_toList, Text.Numeral.parse?_repr]
  · rw [String.ofList_toList, Text.Numeral.parse?_repr]

/-- What is written is read back as the map. -/
theorem parse_render (pairs : List (Int × Int)) :
    parse (pairs.map render) = .ok (ofPairs pairs) := by
  refine parse_eq_ok_iff.2 ⟨pairs, ?_, rfl⟩
  exact List.forall₂_map_left_iff.2 (List.forall₂_same.2 fun pair _ => isCell_render pair)

/-- The map with its values replaced by those of another one, and with the addresses that only the
other one has behind it. -/
def override (cells other : Cells) : Cells :=
  other.foldl (fun cells cell => cells.assign cell.1 cell.2) cells

/-- An address that is there keeps its place, so no address comes twice. -/
theorem nodup_assign {address : Int} (value : Int) (h : (cells.map Prod.fst).Nodup) :
    ((cells.assign address value).map Prod.fst).Nodup := by
  rw [map_fst_assign]
  split
  · exact h
  · rename_i hnew
    exact List.nodup_append_comm.1 (List.nodup_cons.2 ⟨hnew, h⟩)

theorem nodup_override (h : (cells.map Prod.fst).Nodup) (other : Cells) :
    ((cells.override other).map Prod.fst).Nodup := by
  induction other generalizing cells with
  | nil => exact h
  | cons cell other ih => exact ih (nodup_assign cell.2 h)

theorem nodup_ofPairs (pairs : List (Int × Int)) : ((ofPairs pairs).map Prod.fst).Nodup :=
  nodup_override (show (([] : Cells).map Prod.fst).Nodup from .nil) pairs

end Cells

namespace Image

/-! ### One patch after another -/

theorem patch_append (room : Nat) (image : Image) (cells later : Cells) :
    patch room image (cells ++ later) = patch room image cells >>= (patch room · later) := by
  induction cells generalizing image with
  | nil => rw [List.nil_append, patch, pure_bind]
  | cons cell cells ih =>
      obtain ⟨address, value⟩ := cell
      rw [List.cons_append, patch, patch, bind_assoc]
      exact bind_congr fun next => ih next

/-- Cells are overwritten one after another. -/
theorem foldlM_patch (image : Image) (cells : Cells) :
    cells.foldlM (fun image cell => patch room image [cell]) image = patch room image cells := by
  induction cells generalizing image with
  | nil => rfl
  | cons cell cells ih =>
      have hsplit := patch_append room image [cell] cells
      rw [List.singleton_append] at hsplit
      rw [List.foldlM_cons, hsplit]
      exact bind_congr fun next => ih next

/-! ### A map for a list -/

/-- A cell that the image has is overwritten without a look at the room. -/
theorem patchCell_of_lt {a : Nat} (ha : a < image.length) (value : Int) :
    (patchCell room image a value).outcome = .ok (image.set a value) := by
  have hmissing : image.missing a = 0 := by
    rw [missing]
    omega
  have hextend : image.extendTo a = image := by
    rw [extendTo, hmissing, List.replicate_zero, List.append_nil]
  rw [patchCell, if_neg (Int.not_lt.2 (Int.natCast_nonneg a)), Int.toNat_natCast, hmissing, hextend]
  rfl

/-- Two cells may be overwritten in either order, one of which the image has. -/
theorem patchCell_set {a : Nat} {address : Int} (ha : a < image.length) (hne : (a : Int) ≠ address)
    (v value : Int) :
    (patchCell room (image.set a v) address value).outcome =
      (patchCell room image address value).outcome.map (·.set a v) := by
  have hmissing : missing (image.set a v) address.toNat = image.missing address.toNat := by
    rw [missing, List.length_set, missing]
  unfold patchCell
  rw [hmissing]
  split
  · rfl
  · split
    · rfl
    · have hcomm : a ≠ address.toNat := by omega
      show Except.ok _ = Except.ok _
      rw [extendTo, hmissing, ← List.set_append_left _ _ ha, ← extendTo, List.set_comm _ _ hcomm]

/-- Overwriting a cell with another value is overwriting it once more. -/
theorem patchCell_again (image : Image) (address v value : Int) :
    (patchCell room image address value).outcome =
      (patchCell room image address v).outcome.map (·.set address.toNat value) := by
  unfold patchCell
  split
  · rfl
  · split
    · rfl
    · exact congrArg Except.ok (List.set_set ..).symm

/-- A cell that the image has may be overwritten before others, rather than behind them. -/
theorem patch_concat_of_lt (room : Nat) {a : Nat} (ha : a < image.length)
    (hnew : (a : Int) ∉ cells.map Prod.fst) (v : Int) :
    (patch room image (cells ++ [((a : Int), v)])).outcome =
      (patch room (image.set a v) cells).outcome := by
  induction cells generalizing image with
  | nil => exact Logged.outcome_bind_eq_ok.2 ⟨_, patchCell_of_lt ha v, rfl⟩
  | cons cell cells ih =>
      rw [List.map_cons, List.mem_cons, not_or] at hnew
      rw [List.cons_append, patch, patch, Logged.outcome_bind, Logged.outcome_bind,
        patchCell_set ha hnew.1]
      cases hnext : (patchCell room image cell.1 cell.2).outcome with
      | error reason => rfl
      | ok next => exact ih (ha.trans_le (length_le_of_patchCell hnext)) hnew.2

/-- An image may be patched with the map in which an address has a value, or with the cell behind
the others. -/
theorem patch_assign (room : Nat) (image : Image) (cells : Cells) (address value : Int)
    (hmap : (cells.map Prod.fst).Nodup) :
    (patch room image (cells.assign address value)).outcome =
      (patch room image (cells ++ [(address, value)])).outcome := by
  induction cells generalizing image with
  | nil => rfl
  | cons cell cells ih =>
      obtain ⟨a, v⟩ := cell
      obtain ⟨hnew, hmap⟩ := List.nodup_cons.1 hmap
      unfold Cells.assign
      rw [List.cons_append, patch, Logged.outcome_bind]
      by_cases heq : a = address
      · subst heq
        rw [if_pos rfl, patch, Logged.outcome_bind, patchCell_again image a v value]
        cases hnext : (patchCell room image a v).outcome with
        | error reason => rfl
        | ok next =>
            -- the first cell of the map has made sure that the image has the address
            have ha : (a.toNat : Int) = a := Int.toNat_of_nonneg (getD_patchCell hnext).1
            have hlt : a.toNat < next.length := by
              rw [length_of_patchCell hnext]
              omega
            have hconcat := patch_concat_of_lt room hlt (by rwa [ha]) value
            rw [ha] at hconcat
            exact hconcat.symm
      · rw [if_neg heq, patch, Logged.outcome_bind]
        simp only [ih _ hmap]

/-- Overriding a map is patching with the other one behind it. -/
theorem patch_override (room : Nat) (image : Image) (cells other : Cells)
    (hmap : (cells.map Prod.fst).Nodup) :
    (patch room image (cells.override other)).outcome =
      (patch room image (cells ++ other)).outcome := by
  induction other generalizing cells with
  | nil => rw [Cells.override, List.foldl_nil, List.append_nil]
  | cons cell other ih =>
      have hone := patch_assign room image cells cell.1 cell.2 hmap
      rw [Cells.override, List.foldl_cons]
      refine (ih _ (Cells.nodup_assign cell.2 hmap)).trans ?_
      rw [patch_append, Logged.outcome_bind, hone, ← Logged.outcome_bind, ← patch_append,
        List.append_assoc, List.singleton_append]

/-- What an image is patched with may be a list or the map that is made of it. -/
theorem patch_ofPairs (room : Nat) (image : Image) (pairs : List (Int × Int)) :
    (patch room image (Cells.ofPairs pairs)).outcome = (patch room image pairs).outcome :=
  patch_override room image [] pairs .nil

/-! ### The patched image -/

/-- The size that an image needs to have cells at these addresses. -/
def extent (image : Image) (cells : Cells) : Nat :=
  (cells.map fun cell => cell.1.toNat + 1).foldl max image.length

theorem lt_extent_iff {a : Nat} :
    a < extent image cells ↔ a < image.length ∨ ∃ cell ∈ cells, a ≤ cell.1.toNat := by
  unfold extent
  generalize image.length = size
  induction cells generalizing size with
  | nil => simp
  | cons cell cells ih =>
      have hmax : a < max size (cell.1.toNat + 1) ↔ a < size ∨ a ≤ cell.1.toNat := by omega
      rw [List.map_cons, List.foldl_cons, ih, hmax, or_assoc]
      simp

theorem length_of_patch (h : (patch room image cells).outcome = .ok patched) :
    patched.length = extent image cells := by
  induction cells generalizing image with
  | nil =>
      obtain rfl := Except.ok.inj h
      rfl
  | cons cell cells ih =>
      obtain ⟨next, hnext, h⟩ := Logged.outcome_bind_eq_ok.1 h
      rw [ih h, extent, length_of_patchCell hnext]
      rfl

/-- A cell of a patched image holds the last value for it, or what it held. -/
theorem getD_of_patch (h : (patch room image cells).outcome = .ok patched) (a : Nat) :
    patched.getD a 0 = (lastValue? cells a).getD (image.getD a 0) := by
  have hcells := congrFun (getD_patch h) a
  rwa [foldl_overwrite (nonneg_of_patch h)] at hcells

theorem hasRoom_iff :
    HasRoom room image cells ↔
      ∀ a ∈ (cells.map Prod.fst).takeWhile (0 ≤ ·), a < image.length + capacity room := by
  rw [List.takeWhile_map]
  simp only [List.forall_mem_map]
  rfl

/-- Two images of one size that hold the same values are the same. -/
theorem eq_of_getD {image' : Image} (hlength : image.length = image'.length)
    (h : ∀ a, image.getD a 0 = image'.getD a 0) : image = image' := by
  refine List.ext_getElem hlength ?_
  intro a ha ha'
  rw [← List.getD_eq_getElem image 0 ha, h, List.getD_eq_getElem]

/-- The size that an image needs is that for the addresses, in whatever order they come. -/
theorem extent_congr (h : ∀ a, a ∈ cells'.map Prod.fst ↔ a ∈ cells.map Prod.fst) :
    extent image cells' = extent image cells := by
  refine eq_of_forall_lt_iff fun a => ?_
  rw [lt_extent_iff, lt_extent_iff, Cells.exists_cell_congr h (a ≤ ·.toNat)]

/-- If an image can be patched, it can be patched with any list that has no other addresses. -/
theorem exists_patch_of_subset (hroom : HasRoom room image cells)
    (h : (patch room image cells).outcome = .ok patched)
    (hsubset : ∀ a ∈ cells'.map Prod.fst, a ∈ cells.map Prod.fst) :
    ∃ patched', (patch room image cells').outcome = .ok patched' := by
  have hnonneg : ∀ a ∈ cells.map Prod.fst, 0 ≤ a := by
    simpa using nonneg_of_patch h
  have hall : (cells.map Prod.fst).takeWhile (0 ≤ ·) = cells.map Prod.fst := by
    simpa using hnonneg
  rw [hasRoom_iff, hall] at hroom
  refine exists_patch ?_ (hasRoom_iff.2 ?_)
  · intro cell hcell
    exact hnonneg _ (hsubset _ (List.mem_map_of_mem hcell))
  · intro a ha
    exact hroom a (hsubset a ((List.takeWhile_prefix _).subset ha))

/-- The last values decide how an image is patched. -/
theorem patch_congr (hvalues : ∀ a, lastValue? cells' a = lastValue? cells a)
    (hroom : HasRoom room image cells) (h : (patch room image cells).outcome = .ok patched) :
    (patch room image cells').outcome = .ok patched := by
  have haddresses : ∀ a, a ∈ cells'.map Prod.fst ↔ a ∈ cells.map Prod.fst := by
    intro a
    rw [← not_iff_not, ← lastValue?_eq_none_iff, ← lastValue?_eq_none_iff, hvalues]
  obtain ⟨patched', h'⟩ := exists_patch_of_subset hroom h fun a => (haddresses a).1
  have hlength : patched'.length = patched.length := by
    rw [length_of_patch h', length_of_patch h, extent_congr haddresses]
  obtain rfl := eq_of_getD hlength fun a => by rw [getD_of_patch h', getD_of_patch h, hvalues]
  exact h'

/-- With room for the cells, the image is patched or the first negative address is named. -/
theorem patch_cases (hroom : HasRoom room image cells) :
    (∃ address, firstNegative? cells = some address ∧
      (patch room image cells).outcome = .error (.negativePatch address)) ∨
    firstNegative? cells = none ∧ ∃ patched, (patch room image cells).outcome = .ok patched := by
  cases haddress : firstNegative? cells with
  | some address => exact .inl ⟨address, rfl, patch_of_firstNegative haddress hroom⟩
  | none => exact .inr ⟨rfl, exists_patch (firstNegative?_eq_none_iff.1 haddress) hroom⟩

/-- With room for the cells, only a negative address keeps an image from being patched. -/
theorem patch_eq_error_iff {reason : LoadError} (hroom : HasRoom room image cells) :
    (patch room image cells).outcome = .error reason ↔
      ∃ address, firstNegative? cells = some address ∧ reason = .negativePatch address := by
  rcases patch_cases hroom with ⟨address, haddress, h⟩ | ⟨hnone, patched, h⟩
  · rw [h, haddress, Except.error.injEq]
    simp [eq_comm]
  · rw [h, hnone]
    simp

theorem exists_firstNegative_iff :
    (∃ address, firstNegative? cells = some address) ↔ ∃ cell ∈ cells, cell.1 < 0 := by
  rw [← Option.isSome_iff_exists, firstNegative?, List.find?_isSome]
  simp

/-- **In which order cells are overwritten makes no difference, but for the last value of an
address.** Cells are written as a list and read back as a map. If there is room for them, an image
cannot be patched with the map exactly if an address is negative, and the first such address of the
list is named. Otherwise the patched image has the size that it needs, a cell holds the last value
that is listed for it, what it held, or zero, and every list with the same last values patches the
image alike, that is, every list in another order that keeps them, too. In any case the image comes
out as if the cells of the list were overwritten one by one, and patching with other cells behind
the map is patching with the map that these override. -/
theorem patch_by_last_values (room : Nat) (image : Image) (pairs : List (Int × Int))
    (hroom : HasRoom room image pairs) :
    ∃ cells, Cells.parse (pairs.map Cells.render) = .ok cells ∧
      ((∃ reason, (patch room image cells).outcome = .error reason) ↔ ∃ pair ∈ pairs, pair.1 < 0) ∧
      (∀ reason, (patch room image cells).outcome = .error reason →
        ∃ address, firstNegative? pairs = some address ∧ reason = .negativePatch address) ∧
      (∀ patched, (patch room image cells).outcome = .ok patched →
        patched.length = extent image pairs ∧
        (∀ a : Nat, patched.getD a 0 = (lastValue? pairs a).getD (image.getD a 0)) ∧
        ∀ pairs' : List (Int × Int), (∀ a, lastValue? pairs' a = lastValue? pairs a) →
          (patch room image (Cells.ofPairs pairs')).outcome = .ok patched) ∧
      (patch room image cells).outcome =
        (pairs.foldlM (fun image pair => patch room image [pair]) image).outcome ∧
      ∀ other : Cells, (patch room image cells >>= (patch room · other)).outcome =
        (patch room image (cells.override other)).outcome := by
  have hlist := patch_ofPairs room image pairs
  refine ⟨Cells.ofPairs pairs, Cells.parse_render pairs, ?_, ?_, ?_, ?_, ?_⟩
  · rw [hlist, ← exists_firstNegative_iff]
    simp only [patch_eq_error_iff hroom]
    constructor
    · intro h
      obtain ⟨-, address, haddress, -⟩ := h
      exact ⟨address, haddress⟩
    · intro h
      obtain ⟨address, haddress⟩ := h
      exact ⟨_, address, haddress, rfl⟩
  · intro reason hreason
    rw [hlist] at hreason
    exact (patch_eq_error_iff hroom).1 hreason
  · intro patched h
    rw [hlist] at h
    refine ⟨length_of_patch h, getD_of_patch h, ?_⟩
    intro pairs' hvalues
    rw [patch_ofPairs]
    exact patch_congr hvalues hroom h
  · rw [hlist, foldlM_patch]
  · intro other
    rw [patch_override room image _ other (Cells.nodup_ofPairs pairs), patch_append]

/-- An address that is listed twice, and another order of the list; a second map that has one
address of the first and one of its own; and two negative addresses behind a cell that could be
overwritten. -/
theorem patch_by_last_values_repeated_address :
    (∃ cells, Cells.parse ["4=7", "0=5", "4=9"] = .ok cells ∧
      (patch 4 [1, 2] cells).outcome = .ok [5, 2, 0, 0, 9] ∧
      (patch 4 [1, 2] (Cells.ofPairs [(0, 5), (4, 7), (4, 9)])).outcome = .ok [5, 2, 0, 0, 9] ∧
      (patch 4 [1, 2] cells >>= (patch 4 · [(4, 3), (5, 1)])).outcome =
        (patch 4 [1, 2] (cells.override [(4, 3), (5, 1)])).outcome) ∧
    ∃ cells, Cells.parse ["3=1", "-2=0", "-1=0"] = .ok cells ∧
      (patch 4 [1, 2] cells).outcome = .error (.negativePatch (-2)) := by
  constructor
  · have hroom : HasRoom 4 [1, 2] [(4, 7), (0, 5), (4, 9)] := by
      unfold HasRoom
      decide
    obtain ⟨cells, hparse, -, -, hok, hone, hover⟩ :=
      patch_by_last_values 4 [1, 2] [(4, 7), (0, 5), (4, 9)] hroom
    have hpatch : (patch 4 [1, 2] cells).outcome = .ok [5, 2, 0, 0, 9] :=
      hone.trans (by decide +kernel)
    refine ⟨cells, hparse, hpatch, (hok _ hpatch).2.2 _ ?_, hover _⟩
    intro a
    simp only [lastValue?, List.filter_cons, List.filter_nil]
    split <;> split <;> simp_all
  · have hroom : HasRoom 4 [1, 2] [(3, 1), (-2, 0), (-1, 0)] := by
      unfold HasRoom
      decide
    obtain ⟨cells, hparse, hiff, herror, -⟩ :=
      patch_by_last_values 4 [1, 2] [(3, 1), (-2, 0), (-1, 0)] hroom
    obtain ⟨reason, hreason⟩ := hiff.2 ⟨(-2, 0), by simp, by decide⟩
    obtain ⟨address, haddress, rfl⟩ := herror reason hreason
    obtain rfl : -2 = address := Option.some.inj haddress
    exact ⟨cells, hparse, hreason⟩

/-- Where an image cannot be extended as far as a cell is, a negative address behind it is not
reported, however much room there is. -/
theorem patch_by_last_values_beyond_room :
    ∃ cells, Cells.parse ([(0x8000000000000000, 0), (-1, 0)].map Cells.render) = .ok cells ∧
      firstNegative? [(0x8000000000000000, 0), (-1, 0)] = some (-1) ∧
      ∀ room, (patch room [1] cells).outcome = .error .uncountable ∧
        (patch room [1] cells).outcome ≠ .error (.negativePatch (-1)) := by
  refine ⟨_, Cells.parse_render _, rfl, ?_⟩
  intro room
  have hpatch : (patch room [1] (Cells.ofPairs [(0x8000000000000000, 0), (-1, 0)])).outcome =
      .error .uncountable := rfl
  refine ⟨hpatch, ?_⟩
  intro h
  cases hpatch.symm.trans h

end Image

end CellMachine
