import CellMachine.Proofs.Machine.Attempt

/-!
# CellMachine.Proofs.Machine.Rest

**Runs as a relation.** `Ends m last outcome` says that attempt after attempt brings the running
machine `m` to rest as `last`, with no bound and no log in sight. It is the loop of `Machine.run`
(`exists_proceed_iff`), and `RunsTo` is a whole run with its bound forgotten (`runsTo_iff_ends`).
A run is determined by where it starts, and everything proved of all runs is an induction over
`Ends`.
-/

namespace CellMachine.Machine

variable {m next last : Machine} {outcome : Except Fault Status}

/-- Attempts bring a running machine to rest, with this outcome. -/
inductive Ends : Machine → Machine → Except Fault Status → Prop where
  /-- An attempt faults. -/
  | fault {m : Machine} {fault : Fault} : m.step.outcome = .error fault →
      Ends m { m with status := .faulted } (.error fault)
  /-- An attempt leaves the machine stopped or waiting. -/
  | rest {m next : Machine} : m.step.outcome = .ok next → next.status ≠ .running →
      Ends m next (.ok next.status)
  /-- An attempt completes and the machine goes on. -/
  | advance {m next last : Machine} {outcome : Except Fault Status} :
      m.step.outcome = .ok next → next.status = .running → Ends next last outcome →
      Ends m last outcome

/-- A run comes to rest within some bound. -/
def RunsTo (m last : Machine) (outcome : Except Fault Status) : Prop :=
  ∃ fuel r, m.run fuel = some r ∧ r.machine = last ∧ r.outcome = outcome

/-- A machine that a run can change: it neither stopped nor faulted. -/
def Live (m : Machine) : Prop := m.status ≠ .halted ∧ m.status ≠ .faulted

/-- The machine with its status set as a run sets it before the first attempt. -/
def awake (m : Machine) : Machine := { m with status := .running }

@[simp] theorem status_awake : m.awake.status = .running := rfl

theorem not_live_iff : ¬m.Live ↔ m.status = .halted ∨ m.status = .faulted := by
  rw [Live, ← not_or, Classical.not_not]

/-! ### The loop of a run -/

theorem proceed_of_error {fault : Fault} (h : m.step.outcome = .error fault) (fuel : Nat)
    (log : Array Event) :
    proceed (fuel + 1) m log =
      some ⟨{ m with status := .faulted }, (log ++ m.step.log).toList, .error fault⟩ := by
  rcases hm : m.step with ⟨noted, fault' | next⟩ <;> simp_all [proceed]

theorem proceed_of_ok (h : m.step.outcome = .ok next) (fuel : Nat) (log : Array Event) :
    proceed (fuel + 1) m log =
      if next.status = .running then proceed fuel next (log ++ m.step.log)
      else some ⟨next, (log ++ m.step.log).toList, .ok next.status⟩ := by
  rcases hm : m.step with ⟨noted, fault | next'⟩ <;> simp_all [proceed]

theorem ends_of_proceed {fuel : Nat} {log : Array Event} {r : Run}
    (h : proceed fuel m log = some r) : Ends m r.machine r.outcome := by
  induction fuel generalizing m log with
  | zero => simp [proceed] at h
  | succ fuel ih =>
      cases hstep : m.step.outcome with
      | error fault =>
          rw [proceed_of_error hstep, Option.some.injEq] at h
          exact h ▸ .fault hstep
      | ok next =>
          rw [proceed_of_ok hstep] at h
          by_cases hrun : next.status = .running
          · rw [if_pos hrun] at h
            exact .advance hstep hrun (ih h)
          · rw [if_neg hrun, Option.some.injEq] at h
            exact h ▸ .rest hstep hrun

theorem proceed_of_ends (h : Ends m last outcome) (log : Array Event) :
    ∃ fuel r, proceed fuel m log = some r ∧ r.machine = last ∧ r.outcome = outcome := by
  induction h generalizing log with
  | fault hstep => exact ⟨1, _, proceed_of_error hstep 0 log, rfl, rfl⟩
  | rest hstep hrest =>
      exact ⟨1, _, (proceed_of_ok hstep 0 log).trans (if_neg hrest), rfl, rfl⟩
  | @advance m _ _ _ hstep hrun _ ih =>
      obtain ⟨fuel, r, hr, hlast, hout⟩ := ih (log ++ m.step.log)
      refine ⟨fuel + 1, r, ?_, hlast, hout⟩
      rw [proceed_of_ok hstep, if_pos hrun, hr]

theorem exists_proceed_iff {log : Array Event} :
    (∃ fuel r, proceed fuel m log = some r ∧ r.machine = last ∧ r.outcome = outcome) ↔
      Ends m last outcome := by
  refine ⟨?_, fun h => proceed_of_ends h log⟩
  rintro ⟨fuel, r, hr, rfl, rfl⟩
  exact ends_of_proceed hr

/-! ### Whole runs -/

theorem RunsTo.of_run {fuel : Nat} {r : Run} (h : m.run fuel = some r) :
    RunsTo m r.machine r.outcome := ⟨fuel, r, h, rfl, rfl⟩

theorem run_of_live (h : m.Live) (fuel : Nat) : m.run fuel = proceed fuel m.awake #[] := by
  unfold run
  split
  · exact absurd ‹_› h.1
  · exact absurd ‹_› h.2
  · rfl

theorem runsTo_iff_ends (h : m.Live) : RunsTo m last outcome ↔ Ends m.awake last outcome := by
  unfold RunsTo
  simp only [run_of_live h]
  exact exists_proceed_iff

theorem runsTo_of_halted (h : m.status = .halted) : RunsTo m m (.ok .halted) :=
  .of_run (run_of_halted h 0)

theorem runsTo_of_faulted (h : m.status = .faulted) :
    RunsTo m m (.error { cause := .resumedAfterFault, ip := some m.ip }) :=
  .of_run (run_of_faulted h 0)

/-- Two runs that came to rest came to rest alike: the bound is no part of the meaning. -/
theorem RunsTo.unique {last' : Machine} {outcome' : Except Fault Status}
    (h : RunsTo m last outcome) (h' : RunsTo m last' outcome') :
    last = last' ∧ outcome = outcome' := by
  obtain ⟨fuel, r, hr, rfl, rfl⟩ := h
  obtain ⟨fuel', r', hr', rfl, rfl⟩ := h'
  -- under the larger bound both runs are the same run
  have hmax := run_mono hr (Nat.le_max_left fuel fuel')
  rw [run_mono hr' (Nat.le_max_right fuel fuel'), Option.some.injEq] at hmax
  exact ⟨by rw [hmax], by rw [hmax]⟩

/-- Running a machine that stopped or faulted changes nothing. -/
theorem RunsTo.eq_of_not_live (h : RunsTo m last outcome) (hm : ¬m.Live) : last = m := by
  by_cases hhalt : m.status = .halted
  · exact (h.unique (runsTo_of_halted hhalt)).1
  · by_cases hfault : m.status = .faulted
    · exact (h.unique (runsTo_of_faulted hfault)).1
    · exact absurd ⟨hhalt, hfault⟩ hm

theorem Ends.unique {last' : Machine} {outcome' : Except Fault Status}
    (h : Ends m last outcome) (h' : Ends m last' outcome') :
    last = last' ∧ outcome = outcome' := by
  induction h with
  | fault hstep => cases h' <;> simp_all
  | rest hstep hrest => cases h' <;> simp_all
  | advance hstep hrun _ ih =>
      cases h' with
      | fault hstep' => simp_all
      | rest hstep' hrest' => simp_all
      | advance hstep' _ hends' =>
          rw [hstep] at hstep'
          obtain rfl := Except.ok.inj hstep'
          exact ih hends'

/-- How a machine rests agrees with what its run reports. -/
theorem Ends.status (h : Ends m last outcome) (hrun : m.status = .running) :
    (outcome = .ok .halted ∧ last.status = .halted) ∨
      (outcome = .ok .suspended ∧ last.status = .suspended) ∨
      ∃ fault, outcome = .error fault ∧ last.status = .faulted := by
  induction h with
  | fault _ => exact .inr (.inr ⟨_, rfl, rfl⟩)
  | @rest m next hstep hrest =>
      have hatt := (attempt_iff (by rw [hrun]; decide)).2 hstep
      cases hatt with
      | blocked => exact .inr (.inl ⟨rfl, rfl⟩)
      | stopped => exact .inl ⟨rfl, rfl⟩
      | _ => exact absurd hrun hrest
  | advance _ hnext _ ih => exact ih hnext

/-- A run that faults names where the machine rests. -/
theorem Ends.fault_at {fault : Fault} (h : Ends m last (.error fault)) :
    fault.ip = some last.ip ∧ fault.cause ≠ .resumedAfterFault := by
  -- the attempt that faults is the last one, and a fault names the instruction pointer it arose at
  generalize ho : (Except.error fault : Except Fault Status) = outcome at h
  induction h with
  | @fault m f hstep =>
      obtain rfl := Except.error.inj ho
      rw [outcome_step] at hstep
      cases he : m.effect with
      | error f' =>
          rw [he] at hstep
          obtain rfl := Except.error.inj hstep
          exact effect_error he
      | ok effect =>
          rw [he] at hstep
          cases hstep
  | rest _ _ => cases ho
  | advance _ _ _ ih => exact ih ho

/-- A machine that was not faulted comes to rest in one of three ways. -/
theorem RunsTo.status (h : RunsTo m last outcome) (hm : m.status ≠ .faulted) :
    (outcome = .ok .halted ∧ last.status = .halted) ∨
      (outcome = .ok .suspended ∧ last.status = .suspended) ∨
      ∃ fault, outcome = .error fault ∧ last.status = .faulted ∧
        fault.ip = some last.ip ∧ fault.cause ≠ .resumedAfterFault := by
  by_cases hhalt : m.status = .halted
  · obtain ⟨rfl, rfl⟩ := h.unique (runsTo_of_halted hhalt)
    exact .inl ⟨rfl, hhalt⟩
  · have hends := (runsTo_iff_ends ⟨hhalt, hm⟩).1 h
    rcases hends.status rfl with h | h | ⟨fault, rfl, hlast⟩
    · exact .inl h
    · exact .inr (.inl h)
    · exact .inr (.inr ⟨fault, rfl, hlast, hends.fault_at⟩)

/-- A blocked machine rests at once. -/
theorem Blocked.ends (h : m.Blocked) (hm : m.status ≠ .suspended) :
    Ends m { m with status := .suspended } (.ok .suspended) := by
  obtain ⟨hq, address, he⟩ := h
  exact .rest ((attempt_iff hm).1 (.blocked he hq)) (by simp)

/-- A machine that waits waits at an input instruction, with nothing to read. -/
theorem Ends.blocked (h : Ends m last (.ok .suspended)) (hrun : m.status = .running) :
    last.awake.Blocked := by
  generalize ho : (Except.ok Status.suspended : Except Fault Status) = outcome at h
  induction h with
  | fault _ => cases ho
  | @rest m next hstep hrest =>
      cases (attempt_iff (by rw [hrun]; decide)).2 hstep with
      | @blocked address he hq => exact ⟨hq, address, he⟩
      | stopped => cases ho
      | _ => exact absurd hrun hrest
  | advance _ hnext _ ih => exact ih hnext ho

/-- A machine that rests without a fault rests for good: running it again changes nothing. -/
theorem Ends.again {status : Status} (h : Ends m last (.ok status)) (hrun : m.status = .running) :
    RunsTo last last (.ok status) := by
  rcases h.status hrun with ⟨ho, hlast⟩ | ⟨ho, hlast⟩ | ⟨fault, ho, -⟩
  · obtain rfl := Except.ok.inj ho
    exact runsTo_of_halted hlast
  · obtain rfl := Except.ok.inj ho
    -- the second run sets the status and finds the same instruction blocked
    have hends := (h.blocked hrun).ends (by simp)
    have hlast : { last.awake with status := .suspended } = last := by rw [← hlast]; rfl
    rw [hlast] at hends
    exact (runsTo_iff_ends ⟨by simp_all, by simp_all⟩).2 hends
  · cases ho

theorem RunsTo.blocked (h : RunsTo m last (.ok .suspended)) : last.awake.Blocked := by
  by_cases hhalt : m.status = .halted
  · cases (h.unique (runsTo_of_halted hhalt)).2
  · by_cases hfault : m.status = .faulted
    · cases (h.unique (runsTo_of_faulted hfault)).2
    · exact ((runsTo_iff_ends ⟨hhalt, hfault⟩).1 h).blocked rfl

theorem RunsTo.again {status : Status} (h : RunsTo m last (.ok status)) :
    RunsTo last last (.ok status) := by
  by_cases hhalt : m.status = .halted
  · obtain ⟨rfl, -⟩ := h.unique (runsTo_of_halted hhalt)
    exact h
  · by_cases hfault : m.status = .faulted
    · cases (h.unique (runsTo_of_faulted hfault)).2
    · exact ((runsTo_iff_ends ⟨hhalt, hfault⟩).1 h).again rfl

/-- A run that ends without a fault leaves the machine stopped or waiting, as it reports. -/
theorem RunsTo.rested {status : Status} (h : RunsTo m last (.ok status)) :
    last.status = status ∧ (status = .halted ∨ status = .suspended) := by
  by_cases hfault : m.status = .faulted
  · cases (h.unique (runsTo_of_faulted hfault)).2
  · rcases h.status hfault with ⟨ho, hlast⟩ | ⟨ho, hlast⟩ | ⟨fault, ho, -⟩
    · obtain rfl := Except.ok.inj ho
      exact ⟨hlast, .inl rfl⟩
    · obtain rfl := Except.ok.inj ho
      exact ⟨hlast, .inr rfl⟩
    · cases ho

/-! ### Progress -/

/-- An attempt completes an instruction, or changes nothing but the status. -/
theorem steps_of_step (hm : m.status ≠ .suspended) (h : m.step.outcome = .ok next) :
    next.steps = m.steps + 1 ∨ next = { m with status := .suspended } := by
  cases (attempt_iff hm).2 h with
  | blocked _ _ => exact .inr rfl
  | _ => exact .inl rfl

/-- No instruction is ever undone, and a run that completes none changes nothing but the status. -/
theorem Ends.steps (h : Ends m last outcome) (hrun : m.status = .running) :
    m.steps ≤ last.steps ∧ (last.steps = m.steps → last = { m with status := last.status }) := by
  induction h with
  | fault _ => exact ⟨Nat.le_refl _, fun _ => rfl⟩
  | rest hstep _ =>
      rcases steps_of_step (by rw [hrun]; decide) hstep with hsteps | rfl
      · exact ⟨by omega, fun heq => by omega⟩
      · exact ⟨Nat.le_refl _, fun _ => rfl⟩
  | advance hstep hnext _ ih =>
      obtain ⟨hle, -⟩ := ih hnext
      rcases steps_of_step (by rw [hrun]; decide) hstep with hsteps | rfl
      · exact ⟨by omega, fun heq => by omega⟩
      · cases hnext

theorem RunsTo.steps (h : RunsTo m last outcome) :
    m.steps ≤ last.steps ∧ (last.steps = m.steps → last = { m with status := last.status }) := by
  by_cases hhalt : m.status = .halted
  · obtain ⟨rfl, -⟩ := h.unique (runsTo_of_halted hhalt)
    exact ⟨Nat.le_refl _, fun _ => rfl⟩
  · by_cases hfault : m.status = .faulted
    · obtain ⟨rfl, -⟩ := h.unique (runsTo_of_faulted hfault)
      exact ⟨Nat.le_refl _, fun _ => rfl⟩
    · exact ((runsTo_iff_ends ⟨hhalt, hfault⟩).1 h).steps rfl

end CellMachine.Machine
