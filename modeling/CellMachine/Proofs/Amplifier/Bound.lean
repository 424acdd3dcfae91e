import CellMachine.Amplifier.Search

/-!
# CellMachine.Proofs.Amplifier.Bound

**The bound on the runs of an amplifier is no part of the meaning.** What came to rest within a
bound is the same under every larger one: a turn, a sweep, a stage, a chain, a ring, a search. So an
amplifier that comes to an end at all settles on one outcome (`settles_signal_iff`).
-/

namespace CellMachine.Amplifier

variable {fuel fuel' : Nat} {image : List Int} {m : Machine} {machines : List Machine}
variable {signal : List Int} {phases : Phases} {seed : Int}

section

variable {α β : Type} {x x' : Logged Failure α} {f f' : α → Logged Failure β}

/-- A sequence is the same under a larger bound if its parts are. -/
theorem bind_mono (h : (x >>= f).outcome ≠ .error .unfinished)
    (hx : x.outcome ≠ .error .unfinished → x' = x)
    (hf : ∀ a, (f a).outcome ≠ .error .unfinished → f' a = f a) : (x' >>= f') = (x >>= f) := by
  have hfirst : x.outcome ≠ .error .unfinished := by
    intro hfirst
    exact h (Logged.outcome_bind_eq_error.2 (.inl hfirst))
  rw [hx hfirst]
  cases hout : x.outcome with
  | error failure => rw [Logged.bind_of_error hout, Logged.bind_of_error hout]
  | ok a =>
      have hnext : (f a).outcome ≠ .error .unfinished := by
        intro hnext
        exact h (Logged.outcome_bind_eq_error.2 (.inr ⟨a, hout, hnext⟩))
      rw [Logged.bind_of_ok hout, Logged.bind_of_ok hout, hf a hnext]

end

/-! ### Turns and sweeps -/

theorem runMachine_mono (h : (runMachine fuel m).outcome ≠ .error .unfinished)
    (hle : fuel ≤ fuel') : runMachine fuel' m = runMachine fuel m := by
  unfold runMachine at h ⊢
  cases hrun : m.run fuel with
  | none =>
      rw [hrun] at h
      exact absurd rfl h
  | some r => rw [Machine.run_mono hrun hle]

theorem turn_mono (h : (turn fuel m signal).outcome ≠ .error .unfinished) (hle : fuel ≤ fuel') :
    turn fuel' m signal = turn fuel m signal :=
  bind_mono h (fun hrun => runMachine_mono hrun hle) fun _ _ => rfl

theorem sweep_mono {status : Status}
    (h : (sweep fuel machines signal status).outcome ≠ .error .unfinished) (hle : fuel ≤ fuel') :
    sweep fuel' machines signal status = sweep fuel machines signal status := by
  induction machines generalizing signal status with
  | nil => rfl
  | cons m rest ih =>
      refine bind_mono h (fun hturn => turn_mono hturn hle) ?_
      intro t ht
      exact bind_mono ht ih fun _ _ => rfl

/-- The bound on the rounds of a ring may grow along with the bound on its runs. -/
theorem sweeps_mono {rounds rounds' round : Nat} {final : Option Int}
    (h : (sweeps fuel rounds round machines signal final).outcome ≠ .error .unfinished)
    (hle : fuel ≤ fuel') (hrounds : rounds ≤ rounds') :
    sweeps fuel' rounds' round machines signal final =
      sweeps fuel rounds round machines signal final := by
  induction rounds generalizing rounds' round machines signal final with
  | zero => exact absurd rfl h
  | succ rounds ih =>
      obtain ⟨later, rfl⟩ : ∃ later, rounds' = later + 1 := ⟨rounds' - 1, by omega⟩
      refine bind_mono h (fun hsweep => sweep_mono hsweep hle) ?_
      intro s hs
      by_cases hhalt : s.status = .halted
      · simp only [if_pos hhalt]
      · by_cases hidle : (!s.progress) = true
        · simp only [if_neg hhalt, if_pos hidle]
        · simp only [if_neg hhalt, if_neg hidle] at hs ⊢
          exact ih hs (by omega)

/-! ### Chains and rings -/

theorem stage_mono {index : Nat} {phase : Int}
    (h : (stage fuel image index phase signal).outcome ≠ .error .unfinished) (hle : fuel ≤ fuel') :
    stage fuel' image index phase signal = stage fuel image index phase signal :=
  bind_mono h (fun hrun => runMachine_mono hrun hle) fun _ _ => rfl

theorem chainFrom_mono {index : Nat}
    (h : (chainFrom fuel image index signal phases).outcome ≠ .error .unfinished)
    (hle : fuel ≤ fuel') :
    chainFrom fuel' image index signal phases = chainFrom fuel image index signal phases := by
  induction phases generalizing index signal with
  | nil => rfl
  | cons phase phases ih =>
      refine bind_mono h (fun hstage => stage_mono hstage hle) ?_
      intro emitted hlater
      exact ih hlater

theorem chain_mono (h : (chain fuel image phases seed).outcome ≠ .error .unfinished)
    (hle : fuel ≤ fuel') : chain fuel' image phases seed = chain fuel image phases seed := by
  by_cases hphases : phases = []
  · rw [chain, chain, if_pos hphases, if_pos hphases]
  · rw [chain, if_neg hphases] at h ⊢
    rw [chain, if_neg hphases]
    exact bind_mono h (fun hstages => chainFrom_mono hstages hle) fun _ _ => rfl

theorem ring_mono (h : (ring fuel image phases seed).outcome ≠ .error .unfinished)
    (hle : fuel ≤ fuel') : ring fuel' image phases seed = ring fuel image phases seed := by
  by_cases hphases : phases = []
  · rw [ring, ring, if_pos hphases, if_pos hphases]
  · rw [ring, if_neg hphases] at h ⊢
    rw [ring, if_neg hphases]
    exact sweeps_mono h hle hle

theorem signal_mono {wiring : Wiring}
    (h : (wiring.signal fuel image phases seed).outcome ≠ .error .unfinished)
    (hle : fuel ≤ fuel') :
    wiring.signal fuel' image phases seed = wiring.signal fuel image phases seed := by
  cases wiring with
  | chain => exact chain_mono h hle
  | ring => exact ring_mono h hle

/-! ### Searches -/

theorem tryOrder_mono {wiring : Wiring} {best : Option (Int × Phases)}
    (h : (tryOrder wiring fuel image seed best phases).outcome ≠ .error .unfinished)
    (hle : fuel ≤ fuel') :
    tryOrder wiring fuel' image seed best phases = tryOrder wiring fuel image seed best phases :=
  bind_mono h (fun hsignal => signal_mono hsignal hle) fun _ _ => rfl

theorem tries_mono {wiring : Wiring} {orders : List Phases} {best : Option (Int × Phases)}
    (h : (orders.foldlM (tryOrder wiring fuel image seed) best).outcome ≠ .error .unfinished)
    (hle : fuel ≤ fuel') :
    orders.foldlM (tryOrder wiring fuel' image seed) best =
      orders.foldlM (tryOrder wiring fuel image seed) best := by
  induction orders generalizing best with
  | nil => rfl
  | cons order orders ih =>
      rw [List.foldlM_cons] at h ⊢
      rw [List.foldlM_cons]
      exact bind_mono h (fun htry => tryOrder_mono htry hle) fun _ hlater => ih hlater

theorem bestOrder_mono {wiring : Wiring}
    (h : (bestOrder wiring fuel image phases seed).outcome ≠ .error .unfinished)
    (hle : fuel ≤ fuel') :
    bestOrder wiring fuel' image phases seed = bestOrder wiring fuel image phases seed := by
  by_cases hphases : phases = []
  · rw [bestOrder, bestOrder, if_pos hphases, if_pos hphases]
  · rw [bestOrder, if_neg hphases, foldOrdersM_eq] at h ⊢
    rw [bestOrder, if_neg hphases, foldOrdersM_eq]
    exact bind_mono h (fun htries => tries_mono htries hle) fun _ _ => rfl

/-! ### The outcome that counts -/

/-- From some bound on a computation ends in this way, and not for lack of fuel. -/
def Settles {α : Type} (run : Nat → Logged Failure α) (outcome : Except Failure α) : Prop :=
  outcome ≠ .error .unfinished ∧ ∃ bound, ∀ fuel, bound ≤ fuel → (run fuel).outcome = outcome

theorem Settles.unique {α : Type} {run : Nat → Logged Failure α}
    {outcome outcome' : Except Failure α} (h : Settles run outcome) (h' : Settles run outcome') :
    outcome = outcome' := by
  obtain ⟨-, bound, hbound⟩ := h
  obtain ⟨-, bound', hbound'⟩ := h'
  rw [← hbound _ (Nat.le_max_left bound bound'), hbound' _ (Nat.le_max_right bound bound')]

/-- What is made of a value by every run is made of the value that counts. -/
theorem Settles.map {α β : Type} {run : Nat → Logged Failure α} {run' : Nat → Logged Failure β}
    {outcome : Except Failure α} {f : α → β} (h : Settles run outcome)
    (hrun : ∀ fuel, (run' fuel).outcome = (run fuel).outcome.map f) :
    Settles run' (outcome.map f) := by
  obtain ⟨hend, bound, hbound⟩ := h
  refine ⟨?_, bound, ?_⟩
  · cases outcome with
    | error failure => exact fun hfail => hend (congrArg _ (Except.error.inj hfail))
    | ok a => exact fun hfail => by cases hfail
  · intro fuel hle
    rw [hrun, hbound fuel hle]

/-- What comes to the same under every larger bound settles on what it comes to within any. -/
theorem settles_iff_of_mono {α : Type} {run : Nat → Logged Failure α} {outcome : Except Failure α}
    (hmono : ∀ {fuel fuel'}, (run fuel).outcome ≠ .error .unfinished → fuel ≤ fuel' →
      run fuel' = run fuel) :
    Settles run outcome ↔ outcome ≠ .error .unfinished ∧ ∃ fuel, (run fuel).outcome = outcome := by
  constructor
  · intro h
    obtain ⟨hend, bound, hbound⟩ := h
    exact ⟨hend, bound, hbound bound (Nat.le_refl _)⟩
  · intro h
    obtain ⟨hend, bound, rfl⟩ := h
    refine ⟨hend, bound, ?_⟩
    intro fuel hle
    exact congrArg Logged.outcome (hmono hend hle)

/-- An amplifier settles on what it comes to within any bound. -/
theorem settles_signal_iff {wiring : Wiring} {outcome : Except Failure Int} :
    Settles (fun fuel => wiring.signal fuel image phases seed) outcome ↔
      outcome ≠ .error .unfinished ∧
        ∃ fuel, (wiring.signal fuel image phases seed).outcome = outcome :=
  settles_iff_of_mono signal_mono

theorem settles_chainFrom_iff {index : Nat} {outcome : Except Failure (List Int)} :
    Settles (fun fuel => chainFrom fuel image index signal phases) outcome ↔
      outcome ≠ .error .unfinished ∧
        ∃ fuel, (chainFrom fuel image index signal phases).outcome = outcome :=
  settles_iff_of_mono chainFrom_mono

end CellMachine.Amplifier
