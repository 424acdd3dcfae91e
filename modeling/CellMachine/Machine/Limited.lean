import CellMachine.Machine.Run

/-!
# Machines that write down their notes

A machine may have to write down at once what it notes, and to word the faults that it raises. Under
a digit limit this may be refused, and what it was about to do then does not happen:

* If the registers of a traced machine are not written, the instruction is not looked at.
* If the cause of a fault cannot be worded, the instruction does not fault.
* If what an instruction notes is not written, its result is not stored, the machine does not stop
  or wait, and the instruction pointer stays. An input value that was taken is lost.

A refusal is no fault: the status stays what it is, and the machine may be run again. Without a
limit nothing is refused, and all is as in `Machine.step` and `Machine.run` (`stepWithin_off`,
`runWithin_off`).
-/

namespace CellMachine

/-- What came of doing something with a machine under a digit limit. -/
structure Limited (α : Type) where
  /-- What was noted, up to a refusal. -/
  log : List Event
  /-- What it came to, unless it was refused. -/
  outcome : Except DigitLimit.Refusal α
  /-- The machine it left, refused or not. -/
  machine : Machine

namespace Machine

variable {limit : DigitLimit} {m : Machine}

/-- What a refusal leaves of an instruction with this effect: an input value is taken before
anything is noted. -/
def giveUp (m : Machine) : Effect → Machine
  | .accept _ =>
    match m.input.pop? with
    | none => m
    | some (_, rest) => { m with input := rest }
  | .store .. | .emit _ | .goto _ | .shift _ | .stop => m

/-- One attempt at the instruction at the instruction pointer, under a digit limit. -/
def stepWithin (limit : DigitLimit) (m : Machine) : Limited (Except Fault Unit) :=
  if m.traceNotes.all limit.notes then
    match m.effect with
    | .error fault => ⟨m.traceNotes, limit.raise (.error fault), m⟩
    | .ok effect =>
      if (m.notes effect).all limit.notes then
        ⟨m.traceNotes ++ m.notes effect, .ok (.ok ()), (m.perform effect).countStep⟩
      else ⟨m.traceNotes, .error (.write limit), m.giveUp effect⟩
  else ⟨[], .error (.write limit), m⟩

/-- Attempts instructions while the machine is running, until one is refused. -/
def proceedWithin (limit : DigitLimit) :
    Nat → Machine → Array Event → Option (Limited (Except Fault Status))
  | 0, _, _ => none
  | fuel + 1, m, log =>
    match m.stepWithin limit with
    | ⟨noted, .error refusal, next⟩ => some ⟨(log ++ noted).toList, .error refusal, next⟩
    | ⟨noted, .ok (.error fault), next⟩ =>
      some ⟨(log ++ noted).toList, .ok (.error fault), { next with status := .faulted }⟩
    | ⟨noted, .ok (.ok ()), next⟩ =>
      if next.status = .running then proceedWithin limit fuel next (log ++ noted)
      else some ⟨(log ++ noted).toList, .ok (.ok next.status), next⟩

/-- Runs a machine until it rests or is refused. -/
def runWithin (limit : DigitLimit) (fuel : Nat) (m : Machine) :
    Option (Limited (Except Fault Status)) :=
  match m.status with
  | .halted => some ⟨[], .ok (.ok .halted), m⟩
  | .faulted =>
    some ⟨[], .ok (.error { cause := .resumedAfterFault, ip := some m.ip }), m⟩
  | _ => proceedWithin limit fuel { m with status := .running } #[]

/-! ## What is not refused -/

/-- An attempt that is not refused is an attempt. -/
theorem step_of_stepWithin {outcome : Except Fault Unit}
    (h : (m.stepWithin limit).outcome = .ok outcome) :
    (∃ fault, outcome = .error fault ∧ m.step.outcome = .error fault ∧
      (m.stepWithin limit).machine = m) ∨
    (outcome = .ok () ∧ m.step.outcome = .ok (m.stepWithin limit).machine) := by
  unfold stepWithin at h ⊢
  split at h
  · rename_i htrace
    rw [if_pos htrace]
    cases he : m.effect with
    | error fault =>
      simp only [he] at h
      rw [DigitLimit.raise] at h
      split at h
      · exact .inl ⟨fault, (Except.ok.inj h).symm, by rw [outcome_step, he]; rfl, rfl⟩
      · cases h
    | ok effect =>
      simp only [he] at h ⊢
      split at h
      · rename_i hnotes
        refine .inr ⟨(Except.ok.inj h).symm, ?_⟩
        rw [if_pos hnotes, outcome_step, he]
        rfl
      · cases h
  · cases h

/-- More fuel keeps a run that came to an end. -/
theorem proceedWithin_mono {fuel fuel' : Nat} {log : Array Event}
    {r : Limited (Except Fault Status)} (h : proceedWithin limit fuel m log = some r)
    (hle : fuel ≤ fuel') : proceedWithin limit fuel' m log = some r := by
  induction fuel generalizing fuel' m log with
  | zero => simp [proceedWithin] at h
  | succ fuel ih =>
    obtain ⟨fuel', rfl⟩ : ∃ k, fuel' = k + 1 := ⟨fuel' - 1, by omega⟩
    unfold proceedWithin at h ⊢
    split at h
    · exact h
    · exact h
    · rename_i next _
      by_cases hrun : next.status = .running
      · rw [if_pos hrun] at h ⊢
        exact ih h (by omega)
      · rw [if_neg hrun] at h ⊢
        exact h

/-- More fuel keeps a run that came to an end. -/
theorem runWithin_mono {fuel fuel' : Nat} {r : Limited (Except Fault Status)}
    (h : m.runWithin limit fuel = some r) (hle : fuel ≤ fuel') :
    m.runWithin limit fuel' = some r := by
  unfold runWithin at h ⊢
  split at h
  · exact h
  · exact h
  · exact proceedWithin_mono h hle

/-! ## Without a limit -/

theorem stepWithin_off (m : Machine) :
    m.stepWithin .off =
      match m.step with
      | ⟨log, .error fault⟩ => ⟨log, .ok (.error fault), m⟩
      | ⟨log, .ok next⟩ => ⟨log, .ok (.ok ()), next⟩ := by
  have hall : ∀ log : List Event, log.all DigitLimit.off.notes = true := by
    intro log
    simp
  rw [stepWithin, if_pos (hall _)]
  cases he : m.effect with
  | error fault =>
    rw [step_of_error he]
    dsimp only
    rw [DigitLimit.raise, if_pos (by simp)]
  | ok effect =>
    rw [step_of_ok he]
    dsimp only
    rw [if_pos (hall _)]

theorem proceedWithin_off (fuel : Nat) (m : Machine) (log : Array Event) :
    proceedWithin .off fuel m log =
      (proceed fuel m log).map fun r => ⟨r.log, .ok r.outcome, r.machine⟩ := by
  induction fuel generalizing m log with
  | zero => rfl
  | succ fuel ih =>
    rw [proceedWithin, proceed, stepWithin_off]
    rcases m.step with ⟨noted, fault | next⟩
    · rfl
    · dsimp only
      split
      · exact ih next _
      · rfl

/-- Without a limit a run is what it always was. -/
theorem runWithin_off (fuel : Nat) (m : Machine) :
    m.runWithin .off fuel = (m.run fuel).map fun r => ⟨r.log, .ok r.outcome, r.machine⟩ := by
  unfold runWithin run
  cases m.status with
  | halted | faulted => rfl
  | fresh | running | suspended => exact proceedWithin_off fuel _ _

end Machine

end CellMachine
