import CellMachine.Proofs.Amplifier.Agreement
import CellMachine.Proofs.Amplifier.Bound

/-!
# CellMachine.Proofs.Amplifier.Composition

**Chains compose.** The stages of two chains put together are those of the first, which hand all
they emit on to those of the second (`chainFrom_append`). Where a stage stands shows in nothing but
the number that its errors name (`chainFrom_behind`). But a chain is given one value only, its seed,
and gives back the last value of its last stage. So the second chain may be run on what the first
gives back if its last stage emits nothing else.
-/

namespace CellMachine

/-- Rewording the error of a sequence is rewording the errors of its parts. -/
theorem Logged.mapError_bind {ε δ α β : Type} (g : ε → δ) (x : Logged ε α) (f : α → Logged ε β) :
    (x >>= f).mapError g = x.mapError g >>= fun a => (f a).mapError g := by
  rcases x with ⟨log, _ | a⟩
  · rfl
  · rfl

namespace Amplifier

variable {fuel stages index : Nat} {image : List Int} {phases first later : Phases} {seed : Int}
variable {value : Int} {signal emitted : List Int} {failure : Failure}

/-! ### Stages behind other stages -/

/-- The error that is named if there are so many stages in front. -/
def Error.behind (stages : Nat) : Error → Error
  | .waiting stage phase => .waiting (stages + stage) phase
  | .silent stage phase => .silent (stages + stage) phase
  | other => other

/-- The failure that is met if there are so many stages in front. -/
def Failure.behind (stages : Nat) : Failure → Failure
  | .error e => .error (e.behind stages)
  | other => other

theorem Error.behind_inj {error error' : Error} :
    error.behind stages = error'.behind stages ↔ error = error' := by
  cases error <;> cases error' <;> simp [Error.behind]

theorem Failure.behind_inj {failure failure' : Failure} :
    failure.behind stages = failure'.behind stages ↔ failure = failure' := by
  cases failure <;> cases failure' <;> simp [Failure.behind, Error.behind_inj]

/-- The run of a machine does not know of any stages. -/
theorem runMachine_behind (stages fuel : Nat) (m : Machine) :
    (runMachine fuel m).mapError (Failure.behind stages) = runMachine fuel m := by
  unfold runMachine
  cases m.run fuel with
  | none => rfl
  | some run =>
      rcases run with ⟨machine, log, fault | status⟩
      · rfl
      · rfl

theorem stage_behind (stages fuel : Nat) (image : List Int) (index : Nat) (phase : Int)
    (signal : List Int) :
    stage fuel image (stages + index) phase signal =
      (stage fuel image index phase signal).mapError (Failure.behind stages) := by
  rw [stage, stage, Logged.mapError_bind, runMachine_behind]
  apply bind_congr
  intro rested
  obtain ⟨machine, status⟩ := rested
  by_cases hhalt : status ≠ .halted
  · simp only [if_pos hhalt]
    rfl
  · by_cases hsilent : machine.drain.1 = []
    · simp only [if_neg hhalt, if_pos hsilent]
      rfl
    · simp only [if_neg hhalt, if_neg hsilent]
      rfl

/-- Stages do the same wherever they stand, but for the numbers in their errors. -/
theorem chainFrom_behind (stages fuel : Nat) (image : List Int) (index : Nat) (signal : List Int)
    (phases : Phases) :
    chainFrom fuel image (stages + index) signal phases =
      (chainFrom fuel image index signal phases).mapError (Failure.behind stages) := by
  induction phases generalizing index signal with
  | nil => rfl
  | cons phase phases ih =>
      rw [chainFrom, chainFrom, Logged.mapError_bind, stage_behind]
      apply bind_congr
      intro emitted
      exact ih (index + 1) emitted

/-! ### One chain after another -/

/-- The stages behind a first part get all that it emits. -/
theorem chainFrom_append (fuel : Nat) (image : List Int) (index : Nat) (signal : List Int)
    (first later : Phases) :
    chainFrom fuel image index signal (first ++ later) =
      chainFrom fuel image index signal first >>= fun emitted =>
        chainFrom fuel image (index + first.length) emitted later := by
  induction first generalizing index signal with
  | nil => rfl
  | cons phase first ih =>
      rw [List.cons_append, chainFrom, chainFrom, bind_assoc]
      apply bind_congr
      intro emitted
      rw [ih, List.length_cons, Nat.add_right_comm, Nat.add_assoc]

/-- No stage hands on nothing. -/
theorem ne_nil_of_chainFrom (hphases : phases ≠ [])
    (h : (chainFrom fuel image index signal phases).outcome = .ok emitted) : emitted ≠ [] := by
  induction phases generalizing index signal with
  | nil => exact absurd rfl hphases
  | cons phase phases ih =>
      obtain ⟨given, hstage, hlater⟩ := Logged.outcome_bind_eq_ok.1 h
      cases phases with
      | nil =>
          obtain rfl := Except.ok.inj hlater
          obtain ⟨t, -, ⟨-, hsome⟩, rfl⟩ := (stage_eq_ok (feed_load image phase signal)).1 hstage
          exact hsome
      | cons next phases => exact ih (List.cons_ne_nil next phases) hlater

/-- What a chain of stages comes to. -/
theorem outcome_chain (hphases : phases ≠ []) :
    (chain fuel image phases seed).outcome =
      (chainFrom fuel image 0 [seed] phases).outcome.map (·.getLastD seed) := by
  rw [chain, if_neg hphases, Logged.outcome_bind]
  rfl

/-- Behind stages that hand on one value, a chain is as if that value were its seed. -/
theorem outcome_chain_append (hlater : later ≠ [])
    (h : (chainFrom fuel image 0 [seed] first).outcome = .ok [value]) :
    (chain fuel image (first ++ later) seed).outcome =
      (chain fuel image later value).outcome.mapError (Failure.behind first.length) := by
  have happend : first ++ later ≠ [] := by simp [hlater]
  have hstages : (chainFrom fuel image 0 [seed] (first ++ later)).outcome =
      (chainFrom fuel image 0 [value] later).outcome.mapError (Failure.behind first.length) := by
    rw [chainFrom_append, Logged.bind_of_ok h, Nat.zero_add]
    exact congrArg Logged.outcome (chainFrom_behind first.length fuel image 0 [value] later)
  rw [outcome_chain happend, outcome_chain hlater, hstages]
  cases hemitted : (chainFrom fuel image 0 [value] later).outcome with
  | error failure => rfl
  | ok emitted =>
      -- some value was emitted, so neither seed is what comes out
      have hsome := ne_nil_of_chainFrom hlater hemitted
      show Except.ok (emitted.getLastD seed) = Except.ok (emitted.getLastD value)
      rw [List.getLastD_eq_getLast?, List.getLastD_eq_getLast?,
        List.getLast?_eq_some_getLast hsome, Option.getD_some, Option.getD_some]

/-- What keeps the first part of a chain from a signal keeps the whole chain from it. -/
theorem outcome_chain_append_of_error (hfirst : first ≠ [])
    (h : (chain fuel image first seed).outcome = .error failure) (later : Phases) :
    (chain fuel image (first ++ later) seed).outcome = .error failure := by
  have happend : first ++ later ≠ [] := by simp [hfirst]
  have hstages : (chainFrom fuel image 0 [seed] first).outcome = .error failure := by
    rw [outcome_chain hfirst] at h
    cases hfails : (chainFrom fuel image 0 [seed] first).outcome with
    | error failure' =>
        rw [hfails] at h
        exact congrArg _ (Except.error.inj h)
    | ok emitted =>
        rw [hfails] at h
        cases h
  rw [outcome_chain happend, chainFrom_append, Logged.bind_of_error hstages]
  rfl

/-! ### Outcomes that count -/

section Settles

variable {α : Type} {run run' : Nat → Logged Failure α} {outcome : Except Failure α} {bound : Nat}

theorem mapError_behind_inj (stages : Nat) {x y : Except Failure α} :
    x.mapError (Failure.behind stages) = y.mapError (Failure.behind stages) ↔ x = y := by
  cases x with
  | error failure =>
      cases y with
      | error failure' =>
          show Except.error _ = Except.error _ ↔ _
          rw [Except.error.injEq, Except.error.injEq, Failure.behind_inj]
      | ok b => exact iff_of_false (fun h => by cases h) fun h => by cases h
  | ok a =>
      cases y with
      | error failure' => exact iff_of_false (fun h => by cases h) fun h => by cases h
      | ok b => exact Iff.rfl

/-- What does the same from some bound on, behind so many stages, settles on the same. -/
theorem settles_behind_iff (h : ∀ fuel, bound ≤ fuel →
      (run' fuel).outcome = (run fuel).outcome.mapError (Failure.behind stages)) :
    Settles run' outcome ↔
      ∃ outcome', Settles run outcome' ∧ outcome = outcome'.mapError (Failure.behind stages) := by
  have hunfinished : ∀ {x : Except Failure α},
      x.mapError (Failure.behind stages) = .error .unfinished ↔ x = .error .unfinished :=
    fun {x} => mapError_behind_inj stages (x := x) (y := .error .unfinished)
  constructor
  · intro hsettles
    obtain ⟨hend, bound', hbound'⟩ := hsettles
    have houtcome : ∀ fuel, max bound bound' ≤ fuel →
        outcome = (run fuel).outcome.mapError (Failure.behind stages) := by
      intro fuel hle
      rw [← h fuel (by omega), hbound' fuel (by omega)]
    have hat := houtcome _ (Nat.le_refl _)
    refine ⟨(run (max bound bound')).outcome, ⟨?_, max bound bound', ?_⟩, hat⟩
    · intro hend'
      exact hend (hat.trans (hunfinished.2 hend'))
    · intro fuel hle
      exact (mapError_behind_inj stages).1 ((houtcome fuel hle).symm.trans hat)
  · intro hsettles
    obtain ⟨outcome', ⟨hend, bound', hbound'⟩, rfl⟩ := hsettles
    refine ⟨fun hend' => hend (hunfinished.1 hend'), max bound bound', ?_⟩
    intro fuel hle
    rw [h fuel (by omega), hbound' fuel (by omega)]

end Settles

/-- **Chains compose.** If the last stage of a chain emits one value only, that value is what the
chain gives, and more stages behind it do what a chain of them does with that value for a seed: they
give the same signal or fail alike, except that the stage an error names stands behind those of the
first chain. And if the first chain fails, so does the chain with more stages, in the same way. -/
theorem chain_append (image : List Int) (first later : Phases) (seed : Int) (hfirst : first ≠ [])
    (hlater : later ≠ []) :
    (∀ value, Settles (fun fuel => chainFrom fuel image 0 [seed] first) (.ok [value]) →
      Settles (fun fuel => chain fuel image first seed) (.ok value) ∧
      ∀ outcome, Settles (fun fuel => chain fuel image (first ++ later) seed) outcome ↔
        ∃ outcome', Settles (fun fuel => chain fuel image later value) outcome' ∧
          outcome = outcome'.mapError (Failure.behind first.length)) ∧
    ∀ failure, Settles (fun fuel => chain fuel image first seed) (.error failure) →
      Settles (fun fuel => chain fuel image (first ++ later) seed) (.error failure) := by
  constructor
  · intro value hvalue
    refine ⟨hvalue.map fun fuel => outcome_chain hfirst, ?_⟩
    intro outcome
    obtain ⟨-, bound, hbound⟩ := hvalue
    exact settles_behind_iff fun fuel hle => outcome_chain_append hlater (hbound fuel hle)
  · intro failure hfailure
    obtain ⟨hend, bound, hbound⟩ := hfailure
    refine ⟨fun h => hend (congrArg _ (Except.error.inj h)), bound, ?_⟩
    intro fuel hle
    exact outcome_chain_append_of_error hfirst (hbound fuel hle) later

/-- Stages that execute their phases: 104 emits 5, 3 swallows what it is given, and 98 is no
instruction. The stage that emits nothing stands first in its own chain. -/
theorem chain_append_silent_and_faulty :
    Settles (fun fuel => chain fuel [3, 2, 0, 5, 99] [104, 104] 7) (.ok 5) ∧
    Settles (fun fuel => chain fuel [3, 2, 0, 5, 99] [3, 104] 5)
      (.error (.error (.silent 0 3))) ∧
    Settles (fun fuel => chain fuel [3, 2, 0, 5, 99] ([104, 104] ++ [3, 104]) 7)
      (.error (.error (.silent 2 3))) ∧
    Settles (fun fuel => chain fuel [3, 2, 0, 5, 99] ([104, 98] ++ [3, 104]) 7)
      (.error (.fault ⟨.unknownOpcode 98, some 2, some 98⟩)) := by
  have hfirst : Settles (fun fuel => chainFrom fuel [3, 2, 0, 5, 99] 0 [7] [104, 104])
      (.ok [5]) :=
    settles_chainFrom_iff.2 ⟨by simp, 4, rfl⟩
  have hsilent : Settles (fun fuel => Wiring.chain.signal fuel [3, 2, 0, 5, 99] [3, 104] 5)
      (.error (.error (.silent 0 3))) :=
    settles_signal_iff.2 ⟨by simp, 4, rfl⟩
  have hfaulty : Settles (fun fuel => Wiring.chain.signal fuel [3, 2, 0, 5, 99] [104, 98] 7)
      (.error (.fault ⟨.unknownOpcode 98, some 2, some 98⟩)) :=
    settles_signal_iff.2 ⟨by simp, 4, rfl⟩
  obtain ⟨hvalue, hlater⟩ := (chain_append [3, 2, 0, 5, 99] [104, 104] [3, 104] 7 (by simp)
    (by simp)).1 5 hfirst
  exact ⟨hvalue, hsilent, (hlater _).2 ⟨_, hsilent, rfl⟩,
    (chain_append [3, 2, 0, 5, 99] [104, 98] [3, 104] 7 (by simp) (by simp)).2 _ hfaulty⟩

end Amplifier

end CellMachine
