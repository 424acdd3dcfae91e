import CellMachine.Proofs.Machine.Suspension
import CellMachine.Proofs.Memory.Accesses

/-!
# CellMachine.Proofs.Machine.Discipline

**What the instructions of a run leave behind.** A run completes instructions one after another
(`Performs`) and then rests, which changes nothing but the status (`Rests`). One look at the ways an
attempt turns out (`lawful_of_step`) says all that a completed instruction may do to the channels,
the cells and the step counter; what a run does to them is read off the list of its instructions.
`Frugal` is what every machine in the life of a loaded one satisfies: its image has the size it was
loaded with, and no more cells are held beyond it than instructions were completed.
-/

namespace CellMachine.Machine

/-- A completed instruction. -/
structure Completion where
  /-- The machine before it. -/
  before : Machine
  /-- The machine after it. -/
  after : Machine

/-- These instructions are completed in this order, and bring one machine to the other. -/
inductive Performs : Machine → List Completion → Machine → Prop where
  /-- No instruction is completed. -/
  | nil {m : Machine} : Performs m [] m
  /-- An attempt of a running machine does not leave it waiting. -/
  | cons {m next last : Machine} {later : List Completion} : m.status = .running →
      m.step.outcome = .ok next → next.status ≠ .suspended → Performs next later last →
      Performs m (⟨m, next⟩ :: later) last

/-- The machine completes no further instruction, and a run ends like this. -/
inductive Rests (m : Machine) : Machine → Except Fault Status → Prop where
  /-- The last instruction stopped the machine. -/
  | halted : m.status = .halted → Rests m m (.ok .halted)
  /-- An attempt leaves the machine waiting. -/
  | blocked {next : Machine} : m.status = .running → m.step.outcome = .ok next →
      next.status = .suspended → Rests m next (.ok .suspended)
  /-- An attempt faults. -/
  | faulted {fault : Fault} : m.status = .running → m.step.outcome = .error fault →
      Rests m { m with status := .faulted } (.error fault)

namespace Completion

/-- An input instruction was completed. -/
def IsInput (c : Completion) : Prop := c.before.code = 3

/-- An output instruction was completed. -/
def IsOutput (c : Completion) : Prop := c.before.code = 4

instance (c : Completion) : Decidable c.IsInput := inferInstanceAs (Decidable (_ = _))

instance (c : Completion) : Decidable c.IsOutput := inferInstanceAs (Decidable (_ = _))

/-- The instruction took this value from the front of the input and stored it in the cell that its
operand names. -/
def Reads (c : Completion) (v : Int) : Prop :=
  ∃ d : Nat, c.before.operands c.before.word [.write] = .ok [(d : Int)] ∧
    c.before.input.queue = v :: c.after.input.queue ∧ c.after.memory.get d = v

/-- The instruction put this value, that of its operand, at the back of the output. -/
def Writes (c : Completion) (v : Int) : Prop :=
  c.before.operands c.before.word [.read] = .ok [v] ∧
    c.after.output.queue = c.before.output.queue ++ [v]

/-- What a completed instruction does to the channels, the cells and the step counter. -/
structure Lawful (c : Completion) : Prop where
  reads : c.IsInput → ∃ v, c.Reads v
  input : ¬c.IsInput → c.after.input = c.before.input
  writes : c.IsOutput → ∃ v, c.Writes v
  output : ¬c.IsOutput → c.after.output = c.before.output
  memory : c.after.memory = c.before.memory ∨ ∃ a v, c.after.memory = c.before.memory.set a v
  steps : c.after.steps = c.before.steps + 1

end Completion

/-- The memory keeps the size of its image and the cells it holds beyond it. -/
structure Keeps (m next : Machine) : Prop where
  dense : next.memory.size = m.memory.size
  sparse : ∀ a ∈ m.memory.sparse, a ∈ next.memory.sparse

/-- The image has this size, and the cells held beyond it are no more than the steps. -/
structure Frugal (size : Nat) (m : Machine) : Prop where
  dense : m.memory.size = size
  beyond : ∀ a ∈ m.memory.sparse, size ≤ a
  count : m.memory.sparse.size ≤ m.steps

variable {m next last : Machine} {c : Completion} {done : List Completion}
  {outcome : Except Fault Status} {size : Nat}

/-! ### One instruction -/

/-- What emits a value is an output instruction with its one operand resolved. -/
theorem output_of_emit {v : Int} (h : m.effect = .ok (.emit v)) :
    m.code = 4 ∧ m.operands m.word [.read] = .ok [v] := by
  have hcode := (code_of_effect h).2.2 ⟨v, rfl⟩
  obtain ⟨operands, hoperands, husable, heffect⟩ := operands_of_code .output hcode h
  obtain ⟨a, _, -, hnil, rfl⟩ := List.forall₂_cons_left_iff.1 husable
  obtain rfl := List.forall₂_nil_left_iff.1 hnil
  obtain rfl := Effect.emit.inj heffect
  exact ⟨hcode, hoperands⟩

/-- An attempt after which the machine does not wait completes an instruction. -/
theorem lawful_of_step (hrun : m.status = .running) (h : m.step.outcome = .ok next)
    (hnext : next.status ≠ .suspended) : Completion.Lawful ⟨m, next⟩ := by
  have hkind : ∀ {e}, m.effect = .ok e →
      (Completion.IsInput ⟨m, next⟩ ↔ ∃ a, e = .accept a) ∧
      (Completion.IsOutput ⟨m, next⟩ ↔ ∃ v, e = .emit v) := code_of_effect
  -- one effect reads a value and another emits one; with the rest, `hkind` denies both
  cases (attempt_iff (by rw [hrun]; decide)).2 h with
  | blocked => exact absurd rfl hnext
  | stopped he =>
      obtain ⟨hin, hout⟩ := hkind he
      exact ⟨by simp [hin], fun _ => rfl, by simp [hout], fun _ => rfl, .inl rfl, rfl⟩
  | stored he =>
      obtain ⟨hin, hout⟩ := hkind he
      exact ⟨by simp [hin], fun _ => rfl, by simp [hout], fun _ => rfl, .inr ⟨_, _, rfl⟩, rfl⟩
  | @accepted d v rest he hq =>
      obtain ⟨hin, hout⟩ := hkind he
      obtain ⟨-, -, -, hoperands⟩ := input_of_accept he
      exact ⟨fun _ => ⟨v, d, hoperands, hq, Memory.get_set_self _ _ _⟩, by simp [hin],
        by simp [hout], fun _ => rfl, .inr ⟨_, _, rfl⟩, rfl⟩
  | @emitted v he =>
      obtain ⟨hin, hout⟩ := hkind he
      obtain ⟨-, hoperands⟩ := output_of_emit he
      exact ⟨by simp [hin], fun _ => rfl, fun _ => ⟨v, hoperands, rfl⟩, by simp [hout], .inl rfl,
        rfl⟩
  | went he =>
      obtain ⟨hin, hout⟩ := hkind he
      exact ⟨by simp [hin], fun _ => rfl, by simp [hout], fun _ => rfl, .inl rfl, rfl⟩
  | shifted he =>
      obtain ⟨hin, hout⟩ := hkind he
      exact ⟨by simp [hin], fun _ => rfl, by simp [hout], fun _ => rfl, .inl rfl, rfl⟩

namespace Completion

/-- An instruction changes one cell at most. -/
theorem Lawful.cell (h : c.Lawful) :
    ∃ a, ∀ b ≠ a, c.after.memory.get b = c.before.memory.get b := by
  rcases h.memory with hmemory | ⟨a, v, hmemory⟩
  · exact ⟨0, fun b _ => by rw [hmemory]⟩
  · exact ⟨a, fun b hb => by rw [hmemory, Memory.get_set_of_ne _ v hb.symm]⟩

theorem Lawful.keeps (h : c.Lawful) : Keeps c.before c.after := by
  rcases h.memory with hmemory | ⟨a, v, hmemory⟩
  · exact ⟨by rw [hmemory], fun b hb => by rwa [hmemory]⟩
  · refine ⟨by rw [hmemory, Memory.size_set], fun b hb => ?_⟩
    rw [hmemory, Memory.mem_sparse_set]
    exact .inl hb

/-- An instruction that brings a cell into being pays for it with its step. -/
theorem Lawful.frugal (h : c.Lawful) (hbefore : Frugal size c.before) : Frugal size c.after := by
  refine ⟨h.keeps.dense.trans hbefore.dense, ?_, ?_⟩
  · intro b hb
    rcases h.memory with hmemory | ⟨a, v, hmemory⟩
    · rw [hmemory] at hb
      exact hbefore.beyond b hb
    · rw [hmemory, Memory.mem_sparse_set, hbefore.dense] at hb
      rcases hb with hb | ⟨hbeyond, rfl⟩
      · exact hbefore.beyond b hb
      · exact hbeyond
  · have hcount := hbefore.count
    rw [h.steps]
    rcases h.memory with hmemory | ⟨a, v, hmemory⟩
    · rw [hmemory]
      exact Nat.le_succ_of_le hcount
    · rw [hmemory]
      exact (c.before.memory.size_sparse_set_le a v).trans (Nat.succ_le_succ hcount)

end Completion

/-! ### The instructions of a run -/

/-- Attempts that bring a machine to rest complete instructions first. -/
theorem Ends.performs (h : Ends m last outcome) (hrun : m.status = .running) :
    ∃ done reached, Performs m done reached ∧ Rests reached last outcome := by
  induction h with
  | @fault m _ hstep => exact ⟨[], m, .nil, .faulted hrun hstep⟩
  | @rest m next hstep hrest =>
      rcases (Ends.rest hstep hrest).status hrun with ⟨ho, hs⟩ | ⟨ho, hs⟩ | ⟨fault, ho, -⟩
      · rw [ho]
        exact ⟨_, next, .cons hrun hstep (by rw [hs]; decide) .nil, .halted hs⟩
      · rw [ho]
        exact ⟨[], m, .nil, .blocked hrun hstep hs⟩
      · cases ho
  | advance hstep hnext _ ih =>
      obtain ⟨done, reached, hdone, hrests⟩ := ih hnext
      exact ⟨_, reached, .cons hrun hstep (by rw [hnext]; decide) hdone, hrests⟩

/-- Coming to rest changes nothing but the status. -/
theorem Rests.eq_of_status (h : Rests m last outcome) :
    last = { m with status := last.status } := by
  cases h with
  | halted _ => rfl
  | blocked hrun hstep hs =>
      cases (attempt_iff (by rw [hrun]; decide)).2 hstep with
      | blocked => rfl
      | stopped => cases hs
      | _ => cases hrun.symm.trans hs
  | faulted _ _ => rfl

/-- A run completes instructions and leaves the machine that they reach, but for the status. -/
theorem RunsTo.performs (h : RunsTo m last outcome) :
    ∃ done reached, Performs m.awake done reached ∧ last = { reached with status := last.status } ∧
      (m.Live → Rests reached last outcome) ∧ (¬m.Live → done = [] ∧ last = m) := by
  by_cases hm : m.Live
  · obtain ⟨done, reached, hdone, hrests⟩ := ((runsTo_iff_ends hm).1 h).performs rfl
    exact ⟨done, reached, hdone, hrests.eq_of_status, fun _ => hrests, (absurd hm ·)⟩
  · obtain rfl := h.eq_of_not_live hm
    exact ⟨[], last.awake, .nil, rfl, (absurd · hm), fun _ => ⟨rfl, rfl⟩⟩

theorem Performs.lawful (h : Performs m done last) : ∀ c ∈ done, c.Lawful := by
  induction h with
  | nil => simp
  | cons hrun hstep hnext _ ih =>
      exact List.forall_mem_cons.2 ⟨lawful_of_step hrun hstep hnext, ih⟩

theorem Performs.steps (h : Performs m done last) : last.steps = m.steps + done.length := by
  induction h with
  | nil => rfl
  | cons hrun hstep hnext _ ih =>
      rw [ih, (lawful_of_step hrun hstep hnext).steps, List.length_cons]
      dsimp only
      omega

/-- The input instructions take values from the front of the input, one each. -/
theorem Performs.reads (h : Performs m done last) :
    ∃ consumed, List.Forall₂ Completion.Reads (done.filter (·.IsInput)) consumed ∧
      m.input.queue = consumed ++ last.input.queue := by
  induction h with
  | nil => exact ⟨[], .nil, rfl⟩
  | @cons m next _ later hrun hstep hnext _ ih =>
      have hlawful := lawful_of_step hrun hstep hnext
      obtain ⟨consumed, hconsumed, hinput⟩ := ih
      rw [List.filter_cons]
      by_cases hin : Completion.IsInput ⟨m, next⟩
      · obtain ⟨v, hv⟩ := hlawful.reads hin
        obtain ⟨-, -, hqueue, -⟩ := id hv
        rw [if_pos (decide_eq_true hin)]
        refine ⟨v :: consumed, .cons hv hconsumed, ?_⟩
        rw [hqueue, hinput, List.cons_append]
      · rw [if_neg (by simpa using hin), ← show next.input = m.input from hlawful.input hin]
        exact ⟨consumed, hconsumed, hinput⟩

/-- The output instructions put values at the back of the output, one each. -/
theorem Performs.writes (h : Performs m done last) :
    ∃ emitted, List.Forall₂ Completion.Writes (done.filter (·.IsOutput)) emitted ∧
      last.output.queue = m.output.queue ++ emitted := by
  induction h with
  | nil => exact ⟨[], .nil, by rw [List.append_nil]⟩
  | @cons m next _ later hrun hstep hnext _ ih =>
      have hlawful := lawful_of_step hrun hstep hnext
      obtain ⟨emitted, hemitted, houtput⟩ := ih
      rw [List.filter_cons]
      by_cases hout : Completion.IsOutput ⟨m, next⟩
      · obtain ⟨v, hv⟩ := hlawful.writes hout
        have hqueue : next.output.queue = m.output.queue ++ [v] := hv.2
        rw [if_pos (decide_eq_true hout)]
        refine ⟨v :: emitted, .cons hv hemitted, ?_⟩
        rw [houtput, hqueue, List.append_assoc, List.singleton_append]
      · rw [if_neg (by simpa using hout), ← show next.output = m.output from hlawful.output hout]
        exact ⟨emitted, hemitted, houtput⟩

/-! ### What lasts -/

theorem Keeps.trans (h : Keeps m next) (h' : Keeps next last) : Keeps m last :=
  ⟨h'.dense.trans h.dense, fun a ha => h'.sparse a (h.sparse a ha)⟩

theorem Performs.keeps (h : Performs m done last) : Keeps m last := by
  induction h with
  | nil => exact ⟨rfl, fun _ ha => ha⟩
  | cons hrun hstep hnext _ ih => exact (lawful_of_step hrun hstep hnext).keeps.trans ih

theorem Performs.frugal (h : Performs m done last) (hm : Frugal size m) :
    (∀ c ∈ done, Frugal size c.after) ∧ Frugal size last := by
  induction h with
  | nil => exact ⟨by simp, hm⟩
  | cons hrun hstep hnext _ ih =>
      have hafter := (lawful_of_step hrun hstep hnext).frugal hm
      obtain ⟨hlater, hlast⟩ := ih hafter
      exact ⟨List.forall_mem_cons.2 ⟨hafter, hlater⟩, hlast⟩

theorem RunsTo.keeps (h : RunsTo m last outcome) : Keeps m last := by
  obtain ⟨done, reached, hdone, hlast, -⟩ := h.performs
  rw [hlast]
  exact ⟨hdone.keeps.dense, hdone.keeps.sparse⟩

theorem RunsTo.frugal (h : RunsTo m last outcome) (hm : Frugal size m) : Frugal size last := by
  obtain ⟨done, reached, hdone, hlast, -⟩ := h.performs
  obtain ⟨-, hreached⟩ := hdone.frugal (m := m.awake) ⟨hm.dense, hm.beyond, hm.count⟩
  rw [hlast]
  exact ⟨hreached.dense, hreached.beyond, hreached.count⟩

theorem frugal_load (image input : List Int) (trace : Bool) :
    Frugal image.length (load image input trace) :=
  ⟨Memory.size_ofImage image, fun _ ha => absurd ha Std.TreeMap.not_mem_emptyc, Nat.le_refl _⟩

variable {session : List Request} {answers : List Answer}

theorem Serves.keeps (h : Serves m session answers last) : Keeps m last :=
  h.preserves (P := Keeps m) (fun _ _ hm => ⟨hm.dense, hm.sparse⟩)
    (fun _ hm => ⟨hm.dense, hm.sparse⟩)
    (fun _ _ _ hrun hm => hm.trans hrun.keeps) ⟨rfl, fun _ ha => ha⟩

theorem Serves.frugal (h : Serves m session answers last) (hm : Frugal size m) :
    Frugal size last :=
  h.preserves (P := Frugal size) (fun _ _ hm => ⟨hm.dense, hm.beyond, hm.count⟩)
    (fun _ hm => ⟨hm.dense, hm.beyond, hm.count⟩) (fun _ _ _ hrun hm => hrun.frugal hm) hm

end CellMachine.Machine
