import CellMachine.Amplifier.Chain
import CellMachine.Amplifier.Ring

/-!
# CellMachine.Proofs.Amplifier.Agreement

**A chain is the first round of a ring.** The stages of a chain are made one by one and get all
their input at once; the machines of a ring are all loaded beforehand and are fed in their turns.
As long as every machine stops and has emitted something, nothing distinguishes the two: a chain
gives a signal exactly when the ring settles on it in its first round in this way, and a machine
that faults in a chain faults in the ring.

`turns` lists the turns that a sweep sums up, so that something can be said of each of them.
-/

namespace CellMachine.Amplifier

variable {fuel index : Nat} {image : List Int} {m : Machine} {rest : List Machine}
variable {phase seed value : Int} {phases : Phases} {given signal emitted : List Int}
variable {t : Turn} {ts : List Turn} {fault : Fault}

/-! ### The turns of a sweep -/

/-- The turns of some machines, one after another. -/
def turns (fuel : Nat) : List Machine → List Int → Logged Failure (List Turn)
  | [], _ => return []
  | m :: rest, signal => do
    let t ← turn fuel m signal
    let later ← turns fuel rest t.signal
    return t :: later

/-- What turns come to, for machines that were given this signal by one of this status. -/
def Sweep.ofTurns (signal : List Int) (status : Status) : List Turn → Sweep
  | [] => { machines := [], signal, status, progress := false }
  | t :: ts =>
    let later := ofTurns t.signal t.status ts
    { later with
      machines := t.machine :: later.machines
      progress := t.progress || later.progress }

/-- A sweep sums up its turns. -/
theorem sweep_eq (fuel : Nat) (machines : List Machine) (signal : List Int) (status : Status) :
    sweep fuel machines signal status =
      Sweep.ofTurns signal status <$> turns fuel machines signal := by
  induction machines generalizing signal status with
  | nil => rfl
  | cons m rest ih => simp [sweep, turns, Sweep.ofTurns, ih]

theorem outcome_sweep (fuel : Nat) (machines : List Machine) (signal : List Int) (status : Status) :
    (sweep fuel machines signal status).outcome =
      (turns fuel machines signal).outcome.map (Sweep.ofTurns signal status) := by
  rw [sweep_eq, ← bind_pure_comp, Logged.outcome_bind]
  rfl

/-! ### Turns that yield a signal -/

/-- In this turn the machine stopped, having emitted something. -/
def Turn.Yields (t : Turn) : Prop := t.status = .halted ∧ t.signal ≠ []

/-- All the machines stop in their turns, each after some value, and this is what the last of them
emits. -/
def Yields (fuel : Nat) (machines : List Machine) (signal emitted : List Int) : Prop :=
  ∃ ts, (turns fuel machines signal).outcome = .ok ts ∧ (∀ t ∈ ts, t.Yields) ∧
    (Sweep.ofTurns signal .halted ts).signal = emitted

theorem yields_nil : Yields fuel [] signal emitted ↔ signal = emitted := by
  constructor
  · rintro ⟨ts, hts, -, hlast⟩
    obtain rfl := Except.ok.inj hts
    exact hlast
  · intro h
    exact ⟨[], rfl, by simp, h⟩

theorem yields_cons : Yields fuel (m :: rest) signal emitted ↔
    ∃ t, (turn fuel m signal).outcome = .ok t ∧ t.Yields ∧
      Yields fuel rest t.signal emitted := by
  constructor
  · rintro ⟨ts, hts, hall, hlast⟩
    obtain ⟨t, ht, hts⟩ := Logged.outcome_bind_eq_ok.1 hts
    obtain ⟨later, hlater, hts⟩ := Logged.outcome_bind_eq_ok.1 hts
    obtain rfl := Except.ok.inj hts
    obtain ⟨hfirst, hall⟩ := List.forall_mem_cons.1 hall
    rw [Sweep.ofTurns, hfirst.1] at hlast
    exact ⟨t, ht, hfirst, later, hlater, hall, hlast⟩
  · rintro ⟨t, ht, hfirst, later, hlater, hall, hlast⟩
    refine ⟨t :: later, ?_, List.forall_mem_cons.2 ⟨hfirst, hall⟩, ?_⟩
    · exact Logged.outcome_bind_eq_ok.2 ⟨t, ht, Logged.outcome_bind_eq_ok.2 ⟨later, hlater, rfl⟩⟩
    · rw [Sweep.ofTurns, hfirst.1]
      exact hlast

/-- A sweep in which all machines yield ends with what the last one emitted. -/
theorem Yields.sweep {machines : List Machine} (h : Yields fuel machines signal emitted)
    (hne : machines ≠ []) (status : Status) :
    ∃ s, (Amplifier.sweep fuel machines signal status).outcome = .ok s ∧ s.status = .halted ∧
      s.signal = emitted ∧ emitted ≠ [] := by
  induction machines generalizing signal status with
  | nil => exact absurd rfl hne
  | cons m rest ih =>
      obtain ⟨t, ht, ⟨hhalt, hsome⟩, hrest⟩ := yields_cons.1 h
      have hsweep : ∀ later, (Amplifier.sweep fuel rest t.signal t.status).outcome = .ok later →
          (Amplifier.sweep fuel (m :: rest) signal status).outcome = .ok { later with
            machines := t.machine :: later.machines, progress := t.progress || later.progress } :=
        fun later hlater => Logged.outcome_bind_eq_ok.2
          ⟨t, ht, Logged.outcome_bind_eq_ok.2 ⟨later, hlater, rfl⟩⟩
      cases rest with
      | nil =>
          obtain rfl := yields_nil.1 hrest
          exact ⟨_, hsweep _ rfl, hhalt, rfl, hsome⟩
      | cons next rest =>
          obtain ⟨later, hlater, hends⟩ := ih hrest (by simp) t.status
          exact ⟨_, hsweep later hlater, hends⟩

/-! ### A stage is a turn -/

/-- A stage is the turn of a machine that ends up with the same input. -/
theorem outcome_stage (h : m.feed signal = .load image (phase :: given) false) (index : Nat) :
    (stage fuel image index phase given).outcome =
      (turn fuel m signal).outcome.bind fun t =>
        if t.status ≠ .halted then .error (.error (.waiting index phase))
        else if t.signal = [] then .error (.error (.silent index phase))
        else .ok t.signal := by
  rw [stage, turn, h, Logged.outcome_bind, Logged.outcome_bind]
  cases (runMachine fuel (.load image (phase :: given) false)).outcome with
  | error failure => rfl
  | ok rested =>
      obtain ⟨next, status⟩ := rested
      by_cases hhalt : status = .halted
      · by_cases hsilent : next.output.queue = []
        · simp [Except.bind, hhalt, hsilent]
        · simp [Except.bind, hhalt, hsilent]
      · simp [Except.bind, hhalt]

theorem stage_eq_ok (h : m.feed signal = .load image (phase :: given) false) :
    (stage fuel image index phase given).outcome = .ok emitted ↔
      ∃ t, (turn fuel m signal).outcome = .ok t ∧ t.Yields ∧ t.signal = emitted := by
  rw [outcome_stage h]
  cases (turn fuel m signal).outcome with
  | error failure => simp [Except.bind]
  | ok t =>
      by_cases hhalt : t.status = .halted
      · by_cases hsilent : t.signal = []
        · simp [Except.bind, Turn.Yields, hhalt, hsilent]
        · simp [Except.bind, Turn.Yields, hhalt, hsilent]
      · simp [Except.bind, Turn.Yields, hhalt]

theorem turn_of_stage_fault (h : m.feed signal = .load image (phase :: given) false)
    (hfault : (stage fuel image index phase given).outcome = .error (.fault fault)) :
    (turn fuel m signal).outcome = .error (.fault fault) := by
  rw [outcome_stage h] at hfault
  cases ht : (turn fuel m signal).outcome with
  | error failure =>
      rw [ht] at hfault
      exact congrArg _ (Except.error.inj hfault)
  | ok t =>
      rw [ht, Except.bind] at hfault
      split at hfault
      · cases hfault
      · split at hfault <;> cases hfault

/-! ### Stages are turns -/

/-- The machine a stage makes is the one a ring feeds. -/
theorem feed_load (image : List Int) (phase : Int) (signal : List Int) :
    (Machine.load image [phase] false).feed signal = .load image (phase :: signal) false := rfl

theorem chainFrom_cons_eq_ok (h : m.feed signal = .load image (phase :: given) false) :
    (chainFrom fuel image index given (phase :: phases)).outcome = .ok emitted ↔
      ∃ t, (turn fuel m signal).outcome = .ok t ∧ t.Yields ∧
        (chainFrom fuel image (index + 1) t.signal phases).outcome = .ok emitted := by
  rw [chainFrom, Logged.outcome_bind_eq_ok]
  simp only [stage_eq_ok h]
  constructor
  · rintro ⟨_, ⟨t, ht, hyield, rfl⟩, hlater⟩
    exact ⟨t, ht, hyield, hlater⟩
  · rintro ⟨t, ht, hyield, hlater⟩
    exact ⟨_, ⟨t, ht, hyield, rfl⟩, hlater⟩

theorem chainFrom_eq_ok : (chainFrom fuel image index signal phases).outcome = .ok emitted ↔
    Yields fuel (phases.map fun phase => .load image [phase] false) signal emitted := by
  induction phases generalizing signal index with
  | nil =>
      rw [List.map_nil, yields_nil]
      exact ⟨Except.ok.inj, congrArg _⟩
  | cons phase phases ih =>
      rw [chainFrom_cons_eq_ok (feed_load image phase signal), List.map_cons, yields_cons]
      simp only [ih]

/-- The stages of a chain are the turns of a ring, as long as all of them yield. -/
theorem chainFrom_seed_eq_ok (hphases : phases ≠ []) :
    (chainFrom fuel image 0 [seed] phases).outcome = .ok emitted ↔
      Yields fuel (ringMachines image seed phases) [] emitted := by
  cases phases with
  | nil => exact absurd rfl hphases
  | cons phase phases =>
      rw [chainFrom_cons_eq_ok (Machine.feed_nil _), ringMachines, yields_cons]
      simp only [chainFrom_eq_ok]

theorem turns_of_chainFrom_cons_fault (h : m.feed signal = .load image (phase :: given) false)
    (hrest : ∀ signal, (chainFrom fuel image (index + 1) signal phases).outcome =
      .error (.fault fault) → (turns fuel rest signal).outcome = .error (.fault fault))
    (hfault : (chainFrom fuel image index given (phase :: phases)).outcome =
      .error (.fault fault)) :
    (turns fuel (m :: rest) signal).outcome = .error (.fault fault) := by
  apply Logged.outcome_bind_eq_error.2
  rcases Logged.outcome_bind_eq_error.1 hfault with hstage | ⟨given, hstage, hlater⟩
  · exact .inl (turn_of_stage_fault h hstage)
  · obtain ⟨t, ht, -, rfl⟩ := (stage_eq_ok h).1 hstage
    exact .inr ⟨t, ht, Logged.outcome_bind_eq_error.2 (.inl (hrest t.signal hlater))⟩

theorem turns_of_chainFrom_fault
    (h : (chainFrom fuel image index signal phases).outcome = .error (.fault fault)) :
    (turns fuel (phases.map fun phase => .load image [phase] false) signal).outcome =
      .error (.fault fault) := by
  induction phases generalizing signal index with
  | nil => cases h
  | cons phase phases ih =>
      exact turns_of_chainFrom_cons_fault (feed_load image phase signal) (fun _ => ih) h

/-- A machine that faults in a chain faults in the first sweep of the ring. -/
theorem sweep_of_chainFrom_fault
    (h : (chainFrom fuel image 0 [seed] phases).outcome = .error (.fault fault))
    (status : Status) :
    (sweep fuel (ringMachines image seed phases) [] status).outcome = .error (.fault fault) := by
  cases phases with
  | nil => cases h
  | cons phase phases =>
      have hturns := turns_of_chainFrom_cons_fault (Machine.feed_nil _)
        (fun _ => turns_of_chainFrom_fault) h
      rw [outcome_sweep, ringMachines, hturns]
      rfl

/-! ### The first round -/

/-- A ring of fresh machines needs some fuel, and so does a chain of them. -/
theorem outcome_zero (image : List Int) (seed : Int) (hphases : phases ≠ []) :
    (chain 0 image phases seed).outcome = .error .unfinished ∧
      (ring 0 image phases seed).outcome = .error .unfinished := by
  cases phases with
  | nil => exact absurd rfl hphases
  | cons phase phases => exact ⟨rfl, rfl⟩

theorem chain_eq_ok (hphases : phases ≠ []) :
    (chain fuel image phases seed).outcome = .ok value ↔ ∃ emitted,
      (chainFrom fuel image 0 [seed] phases).outcome = .ok emitted ∧
      emitted.getLastD seed = value := by
  rw [chain, if_neg hphases, Logged.outcome_bind_eq_ok]
  simp only [Logged.outcome_pure, Except.ok.injEq]

theorem chain_eq_fault (hphases : phases ≠ [])
    (h : (chain fuel image phases seed).outcome = .error (.fault fault)) :
    (chainFrom fuel image 0 [seed] phases).outcome = .error (.fault fault) := by
  rw [chain, if_neg hphases] at h
  rcases Logged.outcome_bind_eq_error.1 h with h | ⟨_, -, h⟩
  · exact h
  · cases h

/-- Where all machines yield, the ring settles on the last value of the last of them. -/
theorem ring_of_yields (hphases : phases ≠ [])
    (h : Yields (fuel + 1) (ringMachines image seed phases) [] emitted) :
    (ring (fuel + 1) image phases seed).outcome = .ok (emitted.getLastD seed) ∧
      (ring (fuel + 1) image phases seed).log.getLast? = some (.settled 0) := by
  have hmachines : ringMachines image seed phases ≠ [] := by
    rwa [Ne, ← List.length_eq_zero_iff, length_ringMachines, List.length_eq_zero_iff]
  obtain ⟨s, hsweep, hhalt, rfl, hsome⟩ := h.sweep hmachines .fresh
  have hlast : s.signal.getLast? = some (s.signal.getLastD seed) := by
    rw [List.getLastD_eq_getLast?, List.getLast?_eq_some_getLast hsome, Option.getD_some]
  rw [ring, if_neg hphases, sweeps, Logged.bind_of_ok hsweep]
  simp only [if_pos hhalt, hlast, Option.some_or]
  exact ⟨rfl, by rw [List.getLast?_append]; rfl⟩

/-- **A chain is the first round of a ring.** A chain gives a signal exactly when the ring settles
on it in its first round and every machine stopped in its turn, having emitted something. And a
fault of the chain is the fault of the ring. -/
theorem chain_iff_first_round (fuel : Nat) (image : List Int) (phases : Phases) (seed : Int) :
    (∀ value, (chain fuel image phases seed).outcome = .ok value ↔
      (ring fuel image phases seed).outcome = .ok value ∧
      (ring fuel image phases seed).log.getLast? = some (.settled 0) ∧
      ∃ ts, (turns fuel (ringMachines image seed phases) []).outcome = .ok ts ∧
        ∀ t ∈ ts, t.Yields) ∧
    ∀ fault, (chain fuel image phases seed).outcome = .error (.fault fault) →
      (ring fuel image phases seed).outcome = .error (.fault fault) := by
  by_cases hphases : phases = []
  · simp [hphases, chain, ring]
  cases fuel with
  | zero =>
      obtain ⟨hchain, hring⟩ := outcome_zero image seed hphases
      simp [hchain, hring]
  | succ fuel =>
      constructor
      · intro value
        rw [chain_eq_ok hphases]
        simp only [chainFrom_seed_eq_ok hphases]
        constructor
        · rintro ⟨emitted, hyield, rfl⟩
          obtain ⟨hring, hlog⟩ := ring_of_yields hphases hyield
          obtain ⟨ts, hts, hall, -⟩ := hyield
          exact ⟨hring, hlog, ts, hts, hall⟩
        · rintro ⟨hring, -, ts, hts, hall⟩
          have hyield : Yields (fuel + 1) (ringMachines image seed phases) [] _ :=
            ⟨ts, hts, hall, rfl⟩
          rw [(ring_of_yields hphases hyield).1] at hring
          exact ⟨_, hyield, Except.ok.inj hring⟩
      · intro fault h
        have hsweep := sweep_of_chainFrom_fault (chain_eq_fault hphases h) .fresh
        rw [ring, if_neg hphases, sweeps]
        exact Logged.outcome_bind_eq_error.2 (.inl hsweep)

/-- Two machines that add what they are given to their phases and stop. And two that execute their
phases: the first emits 5, and the second meets a word that is no instruction. -/
theorem chain_iff_first_round_adding :
    (chain 9 [3, 11, 3, 12, 1, 11, 12, 11, 4, 11, 99] [1, 2] 7).outcome = .ok 10 ∧
    (ring 9 [3, 11, 3, 12, 1, 11, 12, 11, 4, 11, 99] [1, 2] 7).outcome = .ok 10 ∧
    (chain 9 [3, 2, 0, 5, 99] [104, 98] 7).outcome =
      .error (.fault ⟨.unknownOpcode 98, some 2, some 98⟩) ∧
    (ring 9 [3, 2, 0, 5, 99] [104, 98] 7).outcome =
      .error (.fault ⟨.unknownOpcode 98, some 2, some 98⟩) :=
  ⟨rfl, (((chain_iff_first_round 9 _ _ _).1 10).1 rfl).1, rfl,
    (chain_iff_first_round 9 _ _ _).2 _ rfl⟩

end CellMachine.Amplifier
