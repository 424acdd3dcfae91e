import CellMachine.Machine.Step

/-!
# Runs

A run carries out instructions until the machine stops, waits for input or faults. Programs need
not come to rest, so a run takes a bound on the number of attempts, its *fuel*, and is `none` if the
fuel is spent before the machine rests. A run that came to rest is the same for every larger fuel
(`run_mono`), so the bound is no part of the meaning.

A halted machine stays halted and a faulted one stays faulted: running them changes nothing.
-/

namespace CellMachine

/-- A run that came to rest. -/
structure Run where
  /-- The machine at rest. -/
  machine : Machine
  /-- What was noted on the way. -/
  log : List Event
  /-- How the machine came to rest: its status, or the fault. -/
  outcome : Except Fault Status

namespace Machine

/-- Attempts instructions while the machine is running, keeping what was noted. -/
def proceed : Nat → Machine → Array Event → Option Run
  | 0, _, _ => none
  | fuel + 1, m, log =>
    match m.step with
    | ⟨noted, .error fault⟩ =>
      some ⟨{ m with status := .faulted }, (log ++ noted).toList, .error fault⟩
    | ⟨noted, .ok next⟩ =>
      if next.status = .running then proceed fuel next (log ++ noted)
      else some ⟨next, (log ++ noted).toList, .ok next.status⟩

/-- Runs a machine until it rests. -/
def run (fuel : Nat) (m : Machine) : Option Run :=
  match m.status with
  | .halted => some ⟨m, [], .ok .halted⟩
  | .faulted => some ⟨m, [], .error { cause := .resumedAfterFault, ip := some m.ip }⟩
  | _ => proceed fuel { m with status := .running } #[]

/-! ## The bound does not matter -/

/-- More fuel keeps a run that came to rest. -/
theorem proceed_mono {fuel fuel' : Nat} {m : Machine} {log : Array Event} {r : Run}
    (h : proceed fuel m log = some r) (hle : fuel ≤ fuel') : proceed fuel' m log = some r := by
  induction fuel generalizing fuel' m log with
  | zero => simp [proceed] at h
  | succ fuel ih =>
    obtain ⟨fuel', rfl⟩ : ∃ k, fuel' = k + 1 := ⟨fuel' - 1, by omega⟩
    unfold proceed at h ⊢
    split at h
    · exact h
    · rename_i next _
      by_cases hrun : next.status = .running
      · rw [if_pos hrun] at h ⊢
        exact ih h (by omega)
      · rw [if_neg hrun] at h ⊢
        exact h

/-- More fuel keeps a run that came to rest. -/
theorem run_mono {fuel fuel' : Nat} {m : Machine} {r : Run} (h : m.run fuel = some r)
    (hle : fuel ≤ fuel') : m.run fuel' = some r := by
  unfold run at h ⊢
  split at h
  · exact h
  · exact h
  · exact proceed_mono h hle

/-- A halted machine is at rest already. -/
theorem run_of_halted {m : Machine} (h : m.status = .halted) (fuel : Nat) :
    m.run fuel = some ⟨m, [], .ok .halted⟩ := by
  simp [run, h]

/-- A faulted machine is refused and stays as it is. -/
theorem run_of_faulted {m : Machine} (h : m.status = .faulted) (fuel : Nat) :
    m.run fuel =
      some ⟨m, [], .error { cause := .resumedAfterFault, ip := some m.ip }⟩ := by
  simp [run, h]

end Machine

end CellMachine
