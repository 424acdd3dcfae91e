import Mathlib.Logic.Relation
import CellMachine.Proofs.Machine.InPlace
import CellMachine.Proofs.Machine.Session

/-!
# CellMachine.Proofs.Machine.Finality

**Faults are atomic, and faults and halts are final.** An attempt that faults leaves the machine as
it was, even if it changes the machine in place (`InPlace.attempt_eq`). So a run that faults rests
where its last completed instruction left it (`Ends.completes`). From there on, as from where it
halted, a session changes no more than what waits in the channels (`final_of_runs`).
-/

namespace CellMachine.Machine

open Relation

variable {m last : Machine} {outcome : Except Fault Status} {session : List Request}

/-! ### The last completed instruction -/

/-- The instruction at the instruction pointer completes, and the machine goes on. -/
def Completes (m next : Machine) : Prop := m.step.outcome = .ok next ∧ next.status = .running

/-- A run that faults has completed some instructions, and the next one faults. -/
theorem Ends.completes {fault : Fault} (h : Ends m last (.error fault)) :
    ∃ before, ReflTransGen Completes m before ∧ before.step.outcome = .error fault ∧
      last = { before with status := .faulted } := by
  generalize ho : (Except.error fault : Except Fault Status) = outcome at h
  induction h with
  | @fault m _ hstep =>
      obtain rfl := Except.error.inj ho
      exact ⟨m, .refl, hstep, rfl⟩
  | rest _ _ => cases ho
  | advance hstep hrun _ ih =>
      obtain ⟨before, hbefore, hfault, hlast⟩ := ih ho
      exact ⟨before, .head ⟨hstep, hrun⟩ hbefore, hfault, hlast⟩

/-- The same for whole runs; a machine that had faulted before completes nothing. -/
theorem RunsTo.completes {fault : Fault} (h : RunsTo m last (.error fault)) :
    ∃ before, ReflTransGen Completes m.awake before ∧
      last = { before with status := .faulted } ∧
      (m.status ≠ .faulted → before.step.outcome = .error fault) := by
  by_cases hhalt : m.status = .halted
  · cases (h.unique (runsTo_of_halted hhalt)).2
  · by_cases hfault : m.status = .faulted
    · obtain ⟨rfl, -⟩ := h.unique (runsTo_of_faulted hfault)
      exact ⟨last.awake, .refl, by rw [← hfault]; rfl, fun hne => absurd hfault hne⟩
    · obtain ⟨before, hbefore, hstep, hlast⟩ := ((runsTo_iff_ends ⟨hhalt, hfault⟩).1 h).completes
      exact ⟨before, hbefore, hlast, fun _ => hstep⟩

theorem RunsTo.fault_at {fault : Fault} (h : RunsTo m last (.error fault)) :
    last.status = .faulted ∧ fault.ip = some last.ip := by
  by_cases hfault : m.status = .faulted
  · obtain ⟨rfl, ho⟩ := h.unique (runsTo_of_faulted hfault)
    rw [Except.error.inj ho]
    exact ⟨hfault, rfl⟩
  · obtain ⟨ho, -⟩ | ⟨ho, -⟩ | ⟨fault', ho, hlast, hip, -⟩ := h.status hfault
    · cases ho
    · cases ho
    · rw [Except.error.inj ho]
      exact ⟨hlast, hip⟩

/-! ### Rest for good -/

/-- All of a machine but what waits in its channels. -/
def core (m : Machine) : Machine := { m with input := {}, output := {} }

@[simp] theorem core_feed (m : Machine) (values : List Int) : (m.feed values).core = m.core := rfl

@[simp] theorem core_drain (m : Machine) : m.drain.2.core = m.core := rfl

@[simp] theorem status_core (m : Machine) : m.core.status = m.status := rfl

@[simp] theorem ip_core (m : Machine) : m.core.ip = m.ip := rfl

/-- The machine rests like this for good: no session changes more of it than what waits in its
channels, every run in a session ends like this, and a run after it changes nothing at all. -/
def Final (m : Machine) (outcome : Except Fault Status) : Prop :=
  ∀ fuel session, ∃ answers last, m.serve fuel session = some (answers, last) ∧
    last.core = m.core ∧ (∀ o ∈ outcomes answers, o = outcome) ∧
    last.run fuel = some ⟨last, [], outcome⟩

/-- If no machine that differs in its channels only is changed by a run, all of them are final. -/
theorem final_of_runs
    (h : ∀ fuel (last : Machine), last.core = m.core → last.run fuel = some ⟨last, [], outcome⟩) :
    Final m outcome := by
  intro fuel session
  -- along the session the machine keeps its core, so the next run changes nothing either
  suffices hserve : ∀ m' : Machine, m'.core = m.core → ∃ answers last,
      m'.serve fuel session = some (answers, last) ∧ last.core = m.core ∧
      ∀ o ∈ outcomes answers, o = outcome by
    obtain ⟨answers, last, hserve, hcore, houts⟩ := hserve m rfl
    exact ⟨answers, last, hserve, hcore, houts, h fuel last hcore⟩
  induction session with
  | nil =>
      intro m' hm'
      exact ⟨[], m', rfl, hm', by simp [outcomes]⟩
  | cons q session ih =>
      intro m' hm'
      obtain ⟨answer, next, hask, hnext, hanswer⟩ : ∃ answer next,
          m'.ask fuel q = some (answer, next) ∧ next.core = m.core ∧
          ∀ o ∈ answer.outcome?, o = outcome := by
        cases q with
        | feed values => exact ⟨_, _, rfl, hm', by simp [Answer.outcome?]⟩
        | drain => exact ⟨_, _, rfl, hm', by simp [Answer.outcome?]⟩
        | run => exact ⟨_, m', by rw [ask, h fuel m' hm']; rfl, hm', by simp [Answer.outcome?]⟩
      obtain ⟨answers, last, hserve, hlast, houts⟩ := ih next hnext
      refine ⟨answer :: answers, last, by simp [serve, hask, hserve], hlast, ?_⟩
      intro o ho
      obtain ⟨a, ha, hout⟩ := List.mem_filterMap.1 ho
      rcases List.mem_cons.1 ha with rfl | ha
      · exact hanswer o hout
      · exact houts o (List.mem_filterMap.2 ⟨a, ha, hout⟩)

theorem final_of_halted (h : m.status = .halted) : Final m (.ok .halted) := by
  apply final_of_runs
  intro fuel last hcore
  have hstatus : last.status = m.status := by simpa using congrArg status hcore
  exact run_of_halted (hstatus.trans h) fuel

theorem final_of_faulted (h : m.status = .faulted) :
    Final m (.error { cause := .resumedAfterFault, ip := some m.ip }) := by
  apply final_of_runs
  intro fuel last hcore
  have hstatus : last.status = m.status := by simpa using congrArg status hcore
  have hip : last.ip = m.ip := by simpa using congrArg ip hcore
  rw [run_of_faulted (hstatus.trans h) fuel, hip]

/-- **Faults are atomic, and faults and halts are final.** An attempt that faults leaves nothing
changed, also where the machine is changed in place, and otherwise the two ways to attempt an
instruction or to run a machine are one. A run that faults rests where its last completed
instruction led, names that place, and is the last: every later run is refused there. After a run
that halted every later run reports the same and changes nothing. -/
theorem faults_atomic_rests_final (m : Machine) :
    (∀ fault last, InPlace.attempt m = (.error fault, last) ↔
      m.step.outcome = .error fault ∧ last = m) ∧
    (∀ last, InPlace.attempt m = (.ok (), last) ↔ m.step.outcome = .ok last) ∧
    ∀ fuel r, m.run fuel = some r →
      InPlace.run fuel m = (r.outcome.map some, r.machine) ∧
      (∀ fault, r.outcome = .error fault →
        (∃ before, ReflTransGen Completes m.awake before ∧
          r.machine = { before with status := .faulted } ∧
          (m.status ≠ .faulted → before.step.outcome = .error fault)) ∧
        fault.ip = some r.machine.ip ∧
        Final r.machine (.error { cause := .resumedAfterFault, ip := fault.ip, word := none })) ∧
      (r.outcome = .ok .halted → Final r.machine (.ok .halted)) := by
  refine ⟨?_, ?_, ?_⟩
  · intro fault last
    rw [InPlace.attempt_eq]
    exact InPlace.kept_eq_error
  · intro last
    rw [InPlace.attempt_eq]
    exact InPlace.kept_eq_ok
  · intro fuel r hr
    have hruns := RunsTo.of_run hr
    refine ⟨InPlace.run_eq hr, ?_, ?_⟩
    · intro fault hout
      rw [hout] at hruns
      obtain ⟨hstatus, hip⟩ := hruns.fault_at
      exact ⟨hruns.completes, hip, hip ▸ final_of_faulted hstatus⟩
    · intro hout
      rw [hout] at hruns
      exact final_of_halted hruns.rested.1

/-- A machine that moves its base below zero and then reads a value into a cell below zero: the
value stays in the input, and no session makes the machine go on. And a machine that halts. -/
theorem faults_atomic_rests_final_below_zero :
    ∃ r halted, (load [109, -9, 203, 1, 99] [7] false).run 5 = some r ∧
      r.outcome = .error ⟨.negativeAddress (-8), some 2, some 203⟩ ∧
      InPlace.run 5 (load [109, -9, 203, 1, 99] [7] false) =
        (.error ⟨.negativeAddress (-8), some 2, some 203⟩, r.machine) ∧
      r.machine.input.queue = [7] ∧ r.machine.steps = 1 ∧
      Final r.machine (.error ⟨.resumedAfterFault, some 2, none⟩) ∧
      (load [99] [] false).run 1 = some halted ∧ Final halted.machine (.ok .halted) := by
  obtain ⟨r, hr⟩ := Option.isSome_iff_exists.1
    (show ((load [109, -9, 203, 1, 99] [7] false).run 5).isSome = true from rfl)
  obtain ⟨halted, hhalted⟩ := Option.isSome_iff_exists.1
    (show ((load [99] [] false).run 1).isSome = true from rfl)
  have hout : r.outcome = .error ⟨.negativeAddress (-8), some 2, some 203⟩ :=
    (Option.some.inj (congrArg (Option.map Run.outcome) hr)).symm
  have hqueue : r.machine.input.queue = [7] :=
    (Option.some.inj (congrArg (Option.map (·.machine.input.queue)) hr)).symm
  have hsteps : r.machine.steps = 1 :=
    (Option.some.inj (congrArg (Option.map (·.machine.steps)) hr)).symm
  have hstop : halted.outcome = .ok .halted :=
    (Option.some.inj (congrArg (Option.map Run.outcome) hhalted)).symm
  obtain ⟨hplace, hfault, -⟩ := (faults_atomic_rests_final _).2.2 5 r hr
  obtain ⟨-, -, hhalt⟩ := (faults_atomic_rests_final _).2.2 1 halted hhalted
  rw [hout] at hplace
  exact ⟨r, halted, hr, hout, hplace, hqueue, hsteps, (hfault _ hout).2.2, hhalted, hhalt hstop⟩

end CellMachine.Machine
