import CellMachine.Proofs.Image.Patch
import CellMachine.Proofs.Machine.Simulation

/-!
# CellMachine.Proofs.Machine.Layout

**How a memory is laid out cannot be observed.** Two machines are twins if they have the same cells
and agree in everything else; the image of one may end in the middle of the image of the other.
Whatever is done with both, they give the same replies and stay twins (`Twins.indistinguishable`).

So a cell may be overwritten in an image before it is loaded or in the memory afterwards, and zeros
behind an image are not noticed. What a write notes does tell two layouts apart, so logs are left
out of the comparison.
-/

namespace CellMachine.Machine

variable {m m' : Machine}

/-! ### Twins -/

/-- The same cells, however they are laid out, and all else the same. -/
structure Twins (m m' : Machine) : Prop where
  cells : m'.memory.get = m.memory.get
  others : m' = { m with memory := m'.memory }

theorem Twins.effect (h : Twins m m') : m'.effect = m.effect := by
  obtain ⟨hcells, hothers⟩ := h
  exact effect_congr (congrFun hcells) (by rw [hothers]) (by rw [hothers])

theorem Twins.perform (h : Twins m m') (effect : Effect) :
    Twins (m.perform effect) (m'.perform effect) := by
  obtain ⟨hcells, hothers⟩ := h
  rw [hothers]
  have hset := Memory.get_set_congr hcells
  cases effect with
  | store address value => exact ⟨hset address value, rfl⟩
  | accept address =>
      -- both find the same input, so both wait or both store its front
      rcases hq : m.input with ⟨_ | ⟨value, rest⟩⟩
      · simp only [Machine.perform, hq, Channel.pop?_nil]
        exact ⟨hcells, rfl⟩
      · simp only [Machine.perform, hq, Channel.pop?_cons]
        exact ⟨hset address value, rfl⟩
  | emit value => exact ⟨hcells, rfl⟩
  | goto ip => exact ⟨hcells, rfl⟩
  | shift offset => exact ⟨hcells, rfl⟩
  | stop => exact ⟨hcells, rfl⟩

theorem Twins.countStep (h : Twins m m') : Twins m.countStep m'.countStep := by
  obtain ⟨hcells, hothers⟩ := h
  rw [hothers]
  unfold Machine.countStep
  split
  · exact ⟨hcells, rfl⟩
  · exact ⟨hcells, rfl⟩

/-- Twins cannot be told apart in one operation, and stay twins. -/
theorem simulates_twins : Simulates Twins where
  status h := by rw [h.others]
  ip h := by rw [h.others]
  output h := by rw [h.others]
  read h := Memory.read_congr (congrFun h.cells)
  withStatus h status := ⟨h.cells, by rw [h.others]⟩
  feed h values := ⟨h.cells, by rw [h.others]; rfl⟩
  drain h := ⟨h.cells, by rw [h.others]; rfl⟩
  step {m m'} h := by
    rw [outcome_step, outcome_step, h.effect]
    cases m.effect with
    | error fault => exact .inl ⟨fault, rfl, rfl⟩
    | ok effect => exact .inr ⟨_, _, rfl, rfl, (h.perform effect).countStep⟩
  write h a v := by
    rcases Int.lt_or_le a 0 with ha | ha
    · simp only [Memory.write_of_neg _ _ ha]
      exact .inl ⟨_, rfl, rfl⟩
    · obtain ⟨a, rfl⟩ := Int.eq_ofNat_of_zero_le ha
      simp only [Memory.write_ofNat]
      exact .inr ⟨_, _, rfl, rfl, Memory.get_set_congr h.cells a v, by rw [h.others]⟩

/-! ### Histories of twins -/

/-- Whatever is done with both machines, they give the same replies and stay twins. -/
def Indistinguishable (m m' : Machine) : Prop :=
  ∀ fuel history, Option.Rel (List.Forall₂ (Simulates.Replies Twins)) (m.trail fuel history)
    (m'.trail fuel history)

theorem Twins.indistinguishable (h : Twins m m') : Indistinguishable m m' :=
  fun fuel history => simulates_twins.trail h fuel history

/-! ### Patches, writes and padding -/

/-- **How a memory is laid out cannot be observed**, and patching an image is writing the cells of a
loaded one. Whatever is done with them, in whatever order the cells were written, a machine loaded
with the patched image and one whose cells were written agree in every reply, every register, both
channels and all cells; and so do a machine and one with zeros behind its image. Only lack of room
can keep cells that have addresses from being patched; nothing keeps them from being written. -/
theorem layout_unobservable (room : Nat) (image : Image) (cells writes : Cells) (input : List Int)
    (trace : Bool) (hcells : ∀ cell ∈ cells, 0 ≤ cell.1) (hmap : (cells.map Prod.fst).Nodup)
    (hwrites : writes.Perm cells) :
    (∀ reason, (Image.patch room image cells).outcome = .error reason →
      (reason = .uncountable ∨ reason = .noRoom) ∧
        ∃ cell ∈ cells, image.length + Image.capacity room ≤ cell.1.toNat) ∧
    (∃ memory, ((Memory.ofImage image).writeAll writes).outcome = .ok memory ∧
      ∀ patched, (Image.patch room image cells).outcome = .ok patched →
        Indistinguishable (load patched input trace) { load image input trace with memory }) ∧
    ∀ zeros, Indistinguishable (load (image ++ List.replicate zeros 0) input trace)
      (load image input trace) := by
  have hget : ∀ image : Image, (Memory.ofImage image).get = (image.getD · 0) := by
    intro image
    funext a
    exact Memory.get_ofImage image a
  refine ⟨fun reason => Image.patch_error hcells, ?_, ?_⟩
  · obtain ⟨memory, hmemory, hwritten⟩ :=
      Memory.exists_written (fun cell hcell => hcells cell (hwrites.subset hcell))
        (Memory.ofImage image)
    refine ⟨memory, hmemory, fun patched hpatched => Twins.indistinguishable ⟨?_, rfl⟩⟩
    calc memory.get
        = writes.foldl overwrite (image.getD · 0) := by rw [hwritten, hget]
      _ = cells.foldl overwrite (image.getD · 0) := foldl_overwrite_perm hcells hmap hwrites _
      _ = (Memory.ofImage patched).get := by rw [hget, Image.getD_patch hpatched]
  · intro zeros
    refine Twins.indistinguishable ⟨?_, rfl⟩
    funext a
    exact (Memory.get_ofImage image a).trans ((Image.getD_append_zeros image zeros a).symm.trans
      (Memory.get_ofImage _ a).symm)

/-- A program that doubles a cell beyond its image and emits it. One machine is loaded with cells 5
to 9 patched in; in the other, they are written in another order and lie behind the image. -/
theorem layout_unobservable_beyond_image :
    ∃ patched memory, (Image.patch 5 [1, 9, 9, 9, 4] [(9, 21), (5, 9), (6, 99)]).outcome =
        .ok patched ∧
      ((Memory.ofImage [1, 9, 9, 9, 4]).writeAll [(6, 99), (9, 21), (5, 9)]).outcome =
        .ok memory ∧
      (Memory.ofImage patched).size = 10 ∧ memory.size = 5 ∧
      ((load patched [] false).trail 3 [.run, .drain, .read 9]).map (·.map Handled.reply) =
        some [.ran (.ok .halted), .drained [42], .read (.ok 42)] ∧
      Indistinguishable (load patched [] false)
        { load [1, 9, 9, 9, 4] [] false with memory } := by
  obtain ⟨-, ⟨memory, hmemory, hsame⟩, -⟩ :=
    layout_unobservable 5 [1, 9, 9, 9, 4] [(9, 21), (5, 9), (6, 99)] [(6, 99), (9, 21), (5, 9)] []
      false (by decide) (by decide) (by decide)
  have hsize : memory.size = 5 :=
    (Except.ok.inj (congrArg (Except.map Memory.size) hmemory)).symm
  exact ⟨_, memory, rfl, hmemory, rfl, hsize, rfl, hsame _ rfl⟩

end CellMachine.Machine
