import CellMachine.Machine.Limited
import CellMachine.Proofs.Machine.History

/-!
# CellMachine.Proofs.Machine.Refusal

**Runs and histories under a digit limit.** An attempt that is not refused comes to what it comes to
without a limit, and so does a run (`RunsWithin.runsTo`); whatever it comes to, only what can be
written was noted (`notes_of_runWithin`). An operation of a history may be refused as well, and the
history goes on with the machine that the refusal leaves (`trailWithin`). The machines that make its
attempts are listed as they are without a limit, up to one whose attempt is refused (`triesWithin`).
-/

namespace CellMachine.Machine

variable {limit : DigitLimit} {m last : Machine} {outcome : Except Fault Status} {fuel : Nat}

/-! ### Runs -/

/-- A run comes to rest within some bound, without being refused. -/
def RunsWithin (limit : DigitLimit) (m last : Machine) (outcome : Except Fault Status) : Prop :=
  ∃ fuel r, m.runWithin limit fuel = some r ∧ r.machine = last ∧ r.outcome = .ok outcome

theorem proceedWithin_of_refused {refusal : DigitLimit.Refusal}
    (h : (m.stepWithin limit).outcome = .error refusal) (fuel : Nat) (log : Array Event) :
    proceedWithin limit (fuel + 1) m log =
      some ⟨(log ++ (m.stepWithin limit).log).toList, .error refusal,
        (m.stepWithin limit).machine⟩ := by
  rcases hm : m.stepWithin limit with ⟨noted, refusal' | fault | done, next⟩ <;>
    simp_all [proceedWithin]

theorem proceedWithin_of_fault {fault : Fault}
    (h : (m.stepWithin limit).outcome = .ok (.error fault)) (fuel : Nat) (log : Array Event) :
    proceedWithin limit (fuel + 1) m log =
      some ⟨(log ++ (m.stepWithin limit).log).toList, .ok (.error fault),
        { (m.stepWithin limit).machine with status := .faulted }⟩ := by
  rcases hm : m.stepWithin limit with ⟨noted, refusal' | fault | done, next⟩ <;>
    simp_all [proceedWithin]

theorem proceedWithin_of_ok (h : (m.stepWithin limit).outcome = .ok (.ok ())) (fuel : Nat)
    (log : Array Event) :
    proceedWithin limit (fuel + 1) m log =
      if (m.stepWithin limit).machine.status = .running then
        proceedWithin limit fuel (m.stepWithin limit).machine (log ++ (m.stepWithin limit).log)
      else some ⟨(log ++ (m.stepWithin limit).log).toList,
        .ok (.ok (m.stepWithin limit).machine.status), (m.stepWithin limit).machine⟩ := by
  rcases hm : m.stepWithin limit with ⟨noted, refusal' | fault | done, next⟩ <;>
    simp_all [proceedWithin]

theorem runWithin_of_live (h : m.Live) (fuel : Nat) :
    m.runWithin limit fuel = proceedWithin limit fuel m.awake #[] := by
  unfold runWithin
  split
  · exact absurd ‹_› h.1
  · exact absurd ‹_› h.2
  · rfl

theorem runWithin_of_not_live (h : ¬m.Live) (fuel : Nat) :
    m.runWithin limit fuel = (m.run fuel).map fun r => ⟨r.log, .ok r.outcome, r.machine⟩ := by
  unfold runWithin run
  rcases not_live_iff.1 h with hstatus | hstatus <;> rw [hstatus] <;> rfl

/-- What the loop of a run does: its attempt is refused, or it faults, or the loop goes on behind
it, or the machine rests. -/
theorem proceedWithin_cases {log : Array Event} {r : Limited (Except Fault Status)}
    (h : proceedWithin limit (fuel + 1) m log = some r) :
    (∃ refusal, (m.stepWithin limit).outcome = .error refusal ∧
      r = ⟨(log ++ (m.stepWithin limit).log).toList, .error refusal,
        (m.stepWithin limit).machine⟩) ∨
    (∃ fault, (m.stepWithin limit).outcome = .ok (.error fault) ∧
      r = ⟨(log ++ (m.stepWithin limit).log).toList, .ok (.error fault),
        { (m.stepWithin limit).machine with status := .faulted }⟩) ∨
    ((m.stepWithin limit).outcome = .ok (.ok ()) ∧
      (m.stepWithin limit).machine.status = .running ∧
      proceedWithin limit fuel (m.stepWithin limit).machine (log ++ (m.stepWithin limit).log) =
        some r) ∨
    ((m.stepWithin limit).outcome = .ok (.ok ()) ∧
      (m.stepWithin limit).machine.status ≠ .running ∧
      r = ⟨(log ++ (m.stepWithin limit).log).toList,
        .ok (.ok (m.stepWithin limit).machine.status), (m.stepWithin limit).machine⟩) := by
  rcases hstep : (m.stepWithin limit).outcome with refusal | fault | _
  · rw [proceedWithin_of_refused hstep] at h
    exact .inl ⟨refusal, rfl, (Option.some.inj h).symm⟩
  · rw [proceedWithin_of_fault hstep] at h
    exact .inr (.inl ⟨fault, rfl, (Option.some.inj h).symm⟩)
  · rw [proceedWithin_of_ok hstep] at h
    by_cases hrun : (m.stepWithin limit).machine.status = .running
    · rw [if_pos hrun] at h
      exact .inr (.inr (.inl ⟨rfl, hrun, h⟩))
    · rw [if_neg hrun] at h
      exact .inr (.inr (.inr ⟨rfl, hrun, (Option.some.inj h).symm⟩))

/-- An attempt that faults does so without a limit, too, and leaves the machine as it is. -/
theorem fault_of_stepWithin {fault : Fault}
    (h : (m.stepWithin limit).outcome = .ok (.error fault)) :
    m.step.outcome = .error fault ∧ (m.stepWithin limit).machine = m := by
  obtain ⟨_, heq, hfault⟩ | ⟨hok, -⟩ := step_of_stepWithin h
  · cases heq
    exact hfault
  · cases hok

/-- An attempt that completes leaves the machine that it leaves without a limit. -/
theorem next_of_stepWithin (h : (m.stepWithin limit).outcome = .ok (.ok ())) :
    m.step.outcome = .ok (m.stepWithin limit).machine := by
  obtain ⟨_, hfault, -⟩ | ⟨-, hnext⟩ := step_of_stepWithin h
  · cases hfault
  · exact hnext

theorem ends_of_proceedWithin {log : Array Event} {r : Limited (Except Fault Status)}
    (h : proceedWithin limit fuel m log = some r) (hout : r.outcome = .ok outcome) :
    Ends m r.machine outcome := by
  induction fuel generalizing m log with
  | zero => cases h
  | succ fuel ih =>
      obtain ⟨refusal, -, rfl⟩ | ⟨fault, hstep, rfl⟩ | ⟨hstep, hrun, h⟩ | ⟨hstep, hrun, rfl⟩ :=
        proceedWithin_cases h
      · cases hout
      · obtain rfl := Except.ok.inj hout
        obtain ⟨hfault, hsame⟩ := fault_of_stepWithin hstep
        rw [hsame]
        exact .fault hfault
      · exact .advance (next_of_stepWithin hstep) hrun (ih h)
      · obtain rfl := Except.ok.inj hout
        exact .rest (next_of_stepWithin hstep) hrun

/-- A run that is not refused comes to rest as it does without a limit. -/
theorem RunsWithin.runsTo (h : RunsWithin limit m last outcome) : RunsTo m last outcome := by
  obtain ⟨fuel, r, hr, rfl, hout⟩ := h
  by_cases hm : m.Live
  · rw [runWithin_of_live hm] at hr
    exact (runsTo_iff_ends hm).2 (ends_of_proceedWithin hr hout)
  · rw [runWithin_of_not_live hm] at hr
    obtain ⟨run, hrun, rfl⟩ := Option.map_eq_some_iff.1 hr
    obtain rfl := Except.ok.inj hout
    exact .of_run hrun

/-- An attempt notes nothing that cannot be written. -/
theorem notes_of_stepWithin : ∀ e ∈ (m.stepWithin limit).log, limit.notes e = true := by
  unfold stepWithin
  split
  · rename_i htrace
    cases m.effect with
    | error fault => exact List.all_eq_true.1 htrace
    | ok effect =>
        dsimp only
        split
        · rename_i hnotes
          exact List.forall_mem_append.2 ⟨List.all_eq_true.1 htrace, List.all_eq_true.1 hnotes⟩
        · exact List.all_eq_true.1 htrace
  · simp

/-! ### Histories -/

/-- Does one operation under a digit limit, a run within a bound. -/
def handleWithin (limit : DigitLimit) (fuel : Nat) (m : Machine) :
    Operation → Option (Limited Reply)
  | .feed values => some ⟨[], .ok .fed, m.feed values⟩
  | .drain => some ⟨[], .ok (.drained m.drain.1), m.drain.2⟩
  | .run => (m.runWithin limit fuel).map fun r => ⟨r.log, r.outcome.map .ran, r.machine⟩
  | .step =>
    let attempt := m.stepWithin limit
    some ⟨attempt.log, attempt.outcome.map .stepped, attempt.machine⟩
  | .read address => some ⟨[], (limit.raise (m.memory.read address)).map .read, m⟩
  | .write address value =>
    let written := m.memory.write address value
    if written.log.all limit.notes then
      some ⟨written.log, (limit.raise (written.outcome.map fun _ => ())).map .wrote,
        match written.outcome with
        | .error _ => m
        | .ok memory => { m with memory }⟩
    else some ⟨[], .error (.write limit), m⟩

/-- What comes of the operations of a history, one after another. -/
def trailWithin (limit : DigitLimit) (fuel : Nat) (m : Machine) :
    List Operation → Option (List (Limited Reply))
  | [] => some []
  | op :: history => do
    let x ← m.handleWithin limit fuel op
    let later ← x.machine.trailWithin limit fuel history
    return x :: later

/-- The machines that make the attempts of a run, one after another. -/
def triesWithin (limit : DigitLimit) : Nat → Machine → List Machine
  | 0, _ => []
  | fuel + 1, m =>
    m ::
      match m.stepWithin limit with
      | ⟨_, .ok (.ok ()), next⟩ =>
        if next.status = .running then triesWithin limit fuel next else []
      | _ => []

/-- The machines that make the attempts of an operation. -/
def Operation.triesWithin (limit : DigitLimit) (fuel : Nat) (m : Machine) :
    Operation → List Machine
  | .run =>
    if m.status = .halted ∨ m.status = .faulted then [] else m.awake.triesWithin limit fuel
  | .step => [m]
  | .feed _ | .drain | .read _ | .write _ _ => []

/-- The machines that make the attempts of a history. -/
def triesOfWithin (limit : DigitLimit) (fuel : Nat) (m : Machine) : List Operation → List Machine
  | [] => []
  | op :: history =>
    op.triesWithin limit fuel m ++
      match m.handleWithin limit fuel op with
      | none => []
      | some x => x.machine.triesOfWithin limit fuel history

theorem triesWithin_of_ok (h : (m.stepWithin limit).outcome = .ok (.ok ())) (fuel : Nat) :
    m.triesWithin limit (fuel + 1) =
      m :: if (m.stepWithin limit).machine.status = .running then
        (m.stepWithin limit).machine.triesWithin limit fuel else [] := by
  rcases hm : m.stepWithin limit with ⟨noted, refusal | fault | done, next⟩ <;>
    simp_all [triesWithin]

theorem triesWithin_of_not_ok (h : (m.stepWithin limit).outcome ≠ .ok (.ok ())) (fuel : Nat) :
    m.triesWithin limit (fuel + 1) = [m] := by
  rcases hm : m.stepWithin limit with ⟨noted, refusal | fault | done, next⟩ <;>
    simp_all [triesWithin]

theorem triesWithin_run_of_live (h : m.Live) (fuel : Nat) :
    Operation.run.triesWithin limit fuel m = m.awake.triesWithin limit fuel :=
  if_neg (not_or.2 h)

theorem triesWithin_run_of_not_live (h : ¬m.Live) (fuel : Nat) :
    Operation.run.triesWithin limit fuel m = [] :=
  if_pos (not_live_iff.1 h)

theorem triesOfWithin_cons {op : Operation} {x : Limited Reply}
    (h : m.handleWithin limit fuel op = some x) (history : List Operation) :
    m.triesOfWithin limit fuel (op :: history) =
      op.triesWithin limit fuel m ++ x.machine.triesOfWithin limit fuel history := by
  rw [triesOfWithin, h]

theorem log_of_proceedWithin {log : Array Event} {r : Limited (Except Fault Status)}
    (h : proceedWithin limit fuel m log = some r) :
    r.log = log.toList ++
      (m.triesWithin limit fuel).flatMap fun a => (a.stepWithin limit).log := by
  induction fuel generalizing m log with
  | zero => cases h
  | succ fuel ih =>
      obtain ⟨refusal, hstep, rfl⟩ | ⟨fault, hstep, rfl⟩ | ⟨hstep, hrun, h⟩ | ⟨hstep, hrun, rfl⟩ :=
        proceedWithin_cases h
      · rw [triesWithin_of_not_ok (by simp [hstep])]
        simp
      · rw [triesWithin_of_not_ok (by simp [hstep])]
        simp
      · rw [triesWithin_of_ok hstep, if_pos hrun, ih h]
        simp
      · rw [triesWithin_of_ok hstep, if_neg hrun]
        simp

/-- A run notes what its attempts note. -/
theorem log_of_runWithin {r : Limited (Except Fault Status)} (h : m.runWithin limit fuel = some r) :
    r.log = (Operation.run.triesWithin limit fuel m).flatMap fun a => (a.stepWithin limit).log := by
  by_cases hm : m.Live
  · rw [runWithin_of_live hm] at h
    rw [triesWithin_run_of_live hm]
    exact log_of_proceedWithin h
  · rw [runWithin_of_not_live hm] at h
    obtain ⟨run, hrun, rfl⟩ := Option.map_eq_some_iff.1 h
    rw [triesWithin_run_of_not_live hm]
    rcases not_live_iff.1 hm with hhalt | hfault
    · rw [run_of_halted hhalt] at hrun
      obtain rfl := Option.some.inj hrun
      rfl
    · rw [run_of_faulted hfault] at hrun
      obtain rfl := Option.some.inj hrun
      rfl

/-- A run notes nothing that cannot be written. -/
theorem notes_of_runWithin {r : Limited (Except Fault Status)}
    (h : m.runWithin limit fuel = some r) : ∀ e ∈ r.log, limit.notes e = true := by
  intro e he
  rw [log_of_runWithin h, List.mem_flatMap] at he
  obtain ⟨a, -, he⟩ := he
  exact notes_of_stepWithin e he

end CellMachine.Machine
