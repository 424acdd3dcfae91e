import Mathlib.Data.List.GetD
import Mathlib.Data.List.Nodup
import Mathlib.Data.List.Perm.Basic
import Mathlib.Logic.Function.Basic
import CellMachine.Image.Load
import CellMachine.Memory

/-!
# CellMachine.Proofs.Image.Patch

**Patching an image is overwriting its cells.** Seen as a function from addresses to integers, zero
where there is no cell, a patched image is the image overwritten cell by cell (`getD_patch`), and so
is a memory after as many writes (`exists_written`). The zeros that patching puts behind an image
cannot be seen this way. If no address comes twice, the order does not matter either
(`foldl_overwrite_perm`).
-/

namespace CellMachine

/-! ### Overwriting cells -/

/-- All cells, one of them overwritten. -/
def overwrite (cells : Nat → Int) (cell : Int × Int) : Nat → Int :=
  Function.update cells cell.1.toNat cell.2

theorem overwrite_apply (cells : Nat → Int) (cell : Int × Int) (a : Nat) :
    overwrite cells cell a = if cell.1.toNat = a then cell.2 else cells a := by
  by_cases h : cell.1.toNat = a
  · subst h
    rw [overwrite, Function.update_self, if_pos rfl]
  · rw [overwrite, Function.update_of_ne (Ne.symm h), if_neg h]

theorem overwrite_comm {x y : Int × Int} (h : x.1.toNat = y.1.toNat → x = y) (cells : Nat → Int) :
    overwrite (overwrite cells x) y = overwrite (overwrite cells y) x := by
  by_cases hxy : x.1.toNat = y.1.toNat
  · rw [h hxy]
  · exact Function.update_comm hxy x.2 y.2 cells

/-- The last value that is listed for an address. -/
def lastValue? (cells : List (Int × Int)) (address : Int) : Option Int :=
  (cells.filter (·.1 = address)).getLast?.map Prod.snd

theorem lastValue?_append (cells later : List (Int × Int)) (address : Int) :
    lastValue? (cells ++ later) address =
      (lastValue? later address).or (lastValue? cells address) := by
  rw [lastValue?, List.filter_append, List.getLast?_append, lastValue?, lastValue?]
  cases (later.filter (·.1 = address)).getLast? <;> rfl

theorem lastValue?_singleton (cell : Int × Int) (address : Int) :
    lastValue? [cell] address = if cell.1 = address then some cell.2 else none := by
  by_cases h : cell.1 = address
  · simp [lastValue?, h]
  · simp [lastValue?, h]

theorem lastValue?_cons (cell : Int × Int) (cells : Cells) (address : Int) :
    lastValue? (cell :: cells) address =
      (lastValue? cells address).or (if cell.1 = address then some cell.2 else none) := by
  rw [← List.singleton_append, lastValue?_append, lastValue?_singleton]

/-- No value is listed for the addresses that are not listed. -/
theorem lastValue?_eq_none_iff {cells : List (Int × Int)} {address : Int} :
    lastValue? cells address = none ↔ address ∉ cells.map Prod.fst := by
  rw [lastValue?, Option.map_eq_none_iff, List.getLast?_eq_none_iff, List.filter_eq_nil_iff]
  constructor
  · intro h hmem
    obtain ⟨cell, hcell, haddress⟩ := List.mem_map.1 hmem
    exact h cell hcell (decide_eq_true haddress)
  · intro h cell hcell haddress
    exact h (List.mem_map.2 ⟨cell, hcell, of_decide_eq_true haddress⟩)

/-- Of the values that are written to a cell the last one stays. -/
theorem foldl_overwrite {cells : List (Int × Int)} (hcells : ∀ cell ∈ cells, 0 ≤ cell.1)
    (before : Nat → Int) (a : Nat) :
    cells.foldl overwrite before a = (lastValue? cells a).getD (before a) := by
  induction cells generalizing before with
  | nil => rfl
  | cons cell cells ih =>
      obtain ⟨hcell, hcells⟩ := List.forall_mem_cons.1 hcells
      have haddress : cell.1.toNat = a ↔ cell.1 = a := by omega
      rw [List.foldl_cons, ih hcells, overwrite_apply, lastValue?_cons, Option.getD_or]
      simp only [haddress]
      split <;> rfl

/-- No two cells of a map have the same address. -/
theorem eq_of_toNat_eq {cells : Cells} (hcells : ∀ cell ∈ cells, 0 ≤ cell.1)
    (hmap : (cells.map Prod.fst).Nodup) {x y : Int × Int} (hx : x ∈ cells) (hy : y ∈ cells)
    (h : x.1.toNat = y.1.toNat) : x = y := by
  have haddress : x.1 = y.1 := by
    have hx' := hcells x hx
    have hy' := hcells y hy
    omega
  exact List.inj_on_of_nodup_map hmap hx hy haddress

/-- The cells of a map may be overwritten in any order. -/
theorem foldl_overwrite_perm {cells writes : Cells} (hcells : ∀ cell ∈ cells, 0 ≤ cell.1)
    (hmap : (cells.map Prod.fst).Nodup) (h : writes.Perm cells) (before : Nat → Int) :
    writes.foldl overwrite before = cells.foldl overwrite before := by
  refine (h.symm.foldl_eq' ?_ before).symm
  intro x hx y hy
  exact overwrite_comm (eq_of_toNat_eq hcells hmap hx hy)

namespace Memory

/-- Writes cells one after another. -/
def writeAll (m : Memory) (writes : Cells) : Logged Fault Memory :=
  writes.foldlM (fun m cell => m.write cell.1 cell.2) m

/-- Cells that have addresses can be written. -/
theorem exists_written {writes : Cells} (h : ∀ cell ∈ writes, 0 ≤ cell.1) (m : Memory) :
    ∃ written, (m.writeAll writes).outcome = .ok written ∧
      written.get = writes.foldl overwrite m.get := by
  induction writes generalizing m with
  | nil => exact ⟨m, rfl, rfl⟩
  | cons cell writes ih =>
      have hwrite : (m.write cell.1 cell.2).outcome = .ok (m.set cell.1.toNat cell.2) := by
        rw [← Int.toNat_of_nonneg (h cell (by simp)), write_ofNat]
        rfl
      have hset : (m.set cell.1.toNat cell.2).get = overwrite m.get cell := by
        funext a
        rw [get_set, overwrite_apply]
      obtain ⟨written, hwritten, hget⟩ :=
        ih (fun c hc => h c (List.mem_cons_of_mem _ hc)) (m.set cell.1.toNat cell.2)
      refine ⟨written, ?_, ?_⟩
      · rw [writeAll, List.foldlM_cons]
        exact Logged.outcome_bind_eq_ok.2 ⟨_, hwrite, hwritten⟩
      · rw [hget, hset, List.foldl_cons]

end Memory

namespace Image

/-! ### Patches -/

variable {room : Nat} {image patched : Image} {cells : Cells} {reason : LoadError}

theorem getD_append_zeros (image : Image) (zeros a : Nat) :
    (image ++ List.replicate zeros 0).getD a 0 = image.getD a 0 := by
  rcases Nat.lt_or_ge a image.length with ha | ha
  · rw [List.getD_append _ _ _ _ ha]
  · rw [List.getD_append_right _ _ _ _ ha, List.getD_eq_default image _ ha,
      List.getD_eq_getElem?_getD, List.getElem?_replicate]
    split <;> rfl

theorem lt_length_extendTo (image : Image) (n : Nat) : n < (image.extendTo n).length := by
  rw [extendTo, List.length_append, List.length_replicate, missing]
  omega

theorem getD_patchCell {address value : Int}
    (h : (patchCell room image address value).outcome = .ok patched) :
    0 ≤ address ∧ (patched.getD · 0) = overwrite (image.getD · 0) (address, value) := by
  unfold patchCell at h
  split at h
  · cases h
  · rename_i haddress
    split at h
    · cases h
    · obtain rfl := Except.ok.inj h
      refine ⟨Int.not_lt.1 haddress, ?_⟩
      funext a
      have hset := List.getElem?_set (l := image.extendTo address.toNat) (i := address.toNat)
        (j := a) (a := value)
      rw [if_pos (lt_length_extendTo image address.toNat)] at hset
      rw [List.getD_eq_getElem?_getD, hset, overwrite_apply]
      split
      · rfl
      · rw [← List.getD_eq_getElem?_getD]
        exact getD_append_zeros image _ a

/-- **Patching an image is overwriting its cells.** -/
theorem getD_patch (h : (patch room image cells).outcome = .ok patched) :
    (patched.getD · 0) = cells.foldl overwrite (image.getD · 0) := by
  induction cells generalizing image with
  | nil =>
      obtain rfl := Except.ok.inj h
      rfl
  | cons cell cells ih =>
      obtain ⟨next, hnext, h⟩ := Logged.outcome_bind_eq_ok.1 h
      rw [ih h, (getD_patchCell hnext).2, List.foldl_cons]

theorem length_of_patchCell {address value : Int}
    (h : (patchCell room image address value).outcome = .ok patched) :
    patched.length = max image.length (address.toNat + 1) := by
  unfold patchCell at h
  split at h
  · cases h
  · split at h
    · cases h
    · obtain rfl := Except.ok.inj h
      rw [List.length_set, extendTo, List.length_append, List.length_replicate, missing]
      omega

theorem length_le_of_patchCell {address value : Int}
    (h : (patchCell room image address value).outcome = .ok patched) :
    image.length ≤ patched.length := by
  rw [length_of_patchCell h]
  exact Nat.le_max_left _ _

/-- An image that cannot be extended so far lacks room. -/
theorem growthError?_missing {address : Nat}
    (h : growthError? room (image.missing address) = some reason) :
    (reason = .uncountable ∨ reason = .noRoom) ∧ image.length + capacity room ≤ address := by
  constructor
  · unfold growthError? at h
    split at h
    · exact .inl (Option.some.inj h).symm
    · exact .inr (Option.some.inj (Option.ite_none_right_eq_some.1 h).2).symm
  · have hroom : ¬image.missing address ≤ capacity room := by
      intro hle
      rw [(growthError?_eq_none_iff _ _).2 hle] at h
      cases h
    rw [missing] at hroom
    omega

/-- Where every cell has an address, only lack of room can keep an image from being patched. -/
theorem patch_error (hcells : ∀ cell ∈ cells, 0 ≤ cell.1)
    (h : (patch room image cells).outcome = .error reason) :
    (reason = .uncountable ∨ reason = .noRoom) ∧
      ∃ cell ∈ cells, image.length + capacity room ≤ cell.1.toNat := by
  induction cells generalizing image with
  | nil => cases h
  | cons cell cells ih =>
      rcases Logged.outcome_bind_eq_error.1 h with h | ⟨next, hnext, h⟩
      · rw [patchCell, if_neg (Int.not_lt.2 (hcells cell (by simp)))] at h
        split at h
        · rename_i hgrowth
          obtain rfl := Except.error.inj h
          obtain ⟨hreason, hfar⟩ := growthError?_missing hgrowth
          exact ⟨hreason, cell, by simp, hfar⟩
        · cases h
      · obtain ⟨hreason, far, hmem, hfar⟩ :=
          ih (fun c hc => hcells c (List.mem_cons_of_mem _ hc)) h
        have hlength := length_le_of_patchCell hnext
        exact ⟨hreason, far, List.mem_cons_of_mem _ hmem, by omega⟩

end Image

end CellMachine
