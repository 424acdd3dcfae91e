import Mathlib.Algebra.GroupWithZero.Nat
import CellMachine.Proofs.Amplifier.Bound
import CellMachine.Proofs.Network.Schedules

/-!
# CellMachine.Proofs.Network.Deadlock

**A ring finds exactly its deadlocks.** A round that goes on to the next has completed some
instruction, so a ring cannot go round idly. A round in which no machine completed an instruction,
and whose last machine has not stopped, is reported, and nothing else is; after it every machine has
stopped or waits for input that no further round will bring (`sweep_of_resting`).

A signal handed on was emitted by an instruction, since the outputs are empty when a turn begins.
That is why it makes no difference that a ring also takes an emission for progress.
-/

namespace CellMachine.Network

open Amplifier
open Machine (RunsTo)

variable {fuel fuel' round : Nat} {image : List Int} {seed : Int} {phases : Phases}
variable {m : Machine} {machines machines' : List Machine} {signal signal' : List Int}
variable {final final' : Option Int} {t : Turn} {s : Sweep} {status : Status}

/-! ### Completed instructions -/

/-- The number of instructions that these machines have completed. -/
def totalSteps (machines : List Machine) : Nat := (machines.map Machine.steps).sum

@[simp] theorem totalSteps_nil : totalSteps [] = 0 := rfl

@[simp] theorem totalSteps_cons (m : Machine) (machines : List Machine) :
    totalSteps (m :: machines) = m.steps + totalSteps machines := rfl

theorem progress_of_turn (h : (turn fuel m signal).outcome = .ok t) :
    t.progress = (!t.signal.isEmpty || t.machine.steps != m.steps) := by
  obtain ⟨⟨next, status⟩, -, ht⟩ := Logged.outcome_bind_eq_ok.1 h
  obtain rfl := Except.ok.inj ht
  rfl

/-- A turn makes progress just when an instruction completes in it. -/
theorem steps_of_turn (hq : m.output.queue = []) (h : (turn fuel m signal).outcome = .ok t) :
    m.steps ≤ t.machine.steps ∧ (t.progress = false ↔ t.machine.steps = m.steps) := by
  obtain ⟨r, hrun, -, hmachine, hsignal, -⟩ := exists_run_of_turn h
  obtain ⟨hle, hsame⟩ := (RunsTo.of_run hrun).steps
  have hsteps : t.machine.steps = r.machine.steps := by rw [hmachine, Machine.drain_snd]
  refine ⟨hsteps ▸ hle, ?_⟩
  rw [progress_of_turn h]
  constructor
  · intro hprogress
    simpa using (Bool.or_eq_false_iff.1 hprogress).2
  · intro heq
    -- without an instruction the output is what it was, and that was empty
    have hrested := hsame (hsteps ▸ heq)
    have hempty : t.signal = [] := by
      rw [hsignal, hrested]
      exact hq
    simp [hempty, heq]

/-- A sweep makes progress just when an instruction completes in it. -/
theorem steps_of_sweep (hq : ∀ m ∈ machines, m.output.queue = [])
    (h : (Amplifier.sweep fuel machines signal status).outcome = .ok s) :
    totalSteps machines ≤ totalSteps s.machines ∧
      (s.progress = true → totalSteps machines < totalSteps s.machines) ∧
      (s.progress = false → s.machines.map Machine.steps = machines.map Machine.steps) := by
  induction machines generalizing signal status s with
  | nil =>
      obtain rfl := Except.ok.inj h
      simp
  | cons m rest ih =>
      obtain ⟨t, later, ht, hlater, rfl⟩ := exists_turn_of_sweep h
      obtain ⟨hmachine, hrest⟩ := List.forall_mem_cons.1 hq
      obtain ⟨hle, hsteps⟩ := steps_of_turn hmachine ht
      obtain ⟨hlater, hgrown, hsame⟩ := ih hrest hlater
      rw [totalSteps_cons, totalSteps_cons]
      refine ⟨by omega, ?_, ?_⟩
      · intro hprogress
        rcases Bool.or_eq_true_iff.1 hprogress with hturn | hrest
        · have hne : t.machine.steps ≠ m.steps := by simp [← hsteps, hturn]
          omega
        · have hgrown := hgrown hrest
          omega
      · intro hprogress
        obtain ⟨hturn, hrest⟩ := Bool.or_eq_false_iff.1 hprogress
        rw [List.map_cons, List.map_cons, hsteps.1 hturn, hsame hrest]

theorem progress_eq_false_iff (hq : ∀ m ∈ machines, m.output.queue = [])
    (h : (Amplifier.sweep fuel machines signal status).outcome = .ok s) :
    s.progress = false ↔ s.machines.map Machine.steps = machines.map Machine.steps := by
  obtain ⟨-, hgrown, hsame⟩ := steps_of_sweep hq h
  refine ⟨hsame, fun heq => ?_⟩
  cases hprogress : s.progress with
  | false => rfl
  | true =>
      have hlt := hgrown hprogress
      rw [totalSteps, totalSteps, heq] at hlt
      exact absurd hlt (Nat.lt_irrefl _)

/-! ### Rounds, whatever the bound on their runs -/

theorem Rounds.drained (h : Rounds fuel image seed phases round machines signal final) :
    ∀ m ∈ machines, m.output.queue = [] := by
  obtain ⟨stations, hvisits, rfl, -⟩ := h.visits
  intro m hm
  obtain ⟨s, hs, rfl⟩ := List.mem_map.1 hm
  exact hvisits.drained s hs

theorem Rounds.ne_nil (h : Rounds fuel image seed phases round machines signal final)
    (hphases : phases ≠ []) : machines ≠ [] := by
  obtain ⟨stations, hvisits, rfl, -⟩ := h.visits
  exact mt List.map_eq_nil_iff.1 (hvisits.ne_nil hphases)

theorem sweep_eq_ok_mono (h : (Amplifier.sweep fuel machines signal status).outcome = .ok s)
    (hle : fuel ≤ fuel') : (Amplifier.sweep fuel' machines signal status).outcome = .ok s := by
  rw [sweep_mono (by rw [h]; simp) hle, h]

theorem Rounds.mono (h : Rounds fuel image seed phases round machines signal final)
    (hle : fuel ≤ fuel') : Rounds fuel' image seed phases round machines signal final := by
  induction h with
  | loaded => exact .loaded
  | swept _ hsweep hstatus hprogress ih =>
      exact .swept ih (sweep_eq_ok_mono hsweep hle) hstatus hprogress

/-- A ring comes to its rounds in one way only. -/
theorem Rounds.unique (h : Rounds fuel image seed phases round machines signal final)
    (h' : Rounds fuel image seed phases round machines' signal' final') :
    machines = machines' ∧ signal = signal' ∧ final = final' := by
  induction h generalizing machines' signal' final' with
  | loaded =>
      cases h'
      exact ⟨rfl, rfl, rfl⟩
  | swept _ hsweep _ _ ih =>
      cases h' with
      | swept hbefore hsweep' _ _ =>
          obtain ⟨rfl, rfl, rfl⟩ := ih hbefore
          obtain rfl := Except.ok.inj (hsweep.symm.trans hsweep')
          exact ⟨rfl, rfl, rfl⟩

/-- A ring reports a deadlock in a round exactly when the sweep makes no progress and its last
machine has not stopped. -/
theorem exists_deadlock_iff (hphases : phases ≠ [])
    (hround : Rounds fuel image seed phases round machines signal final)
    (hfinished : (Amplifier.sweep fuel machines signal .fresh).outcome ≠ .error .unfinished) :
    (∃ bound, (ring bound image phases seed).outcome = .error (.error (.deadlock round))) ↔
      ∃ s, (Amplifier.sweep fuel machines signal .fresh).outcome = .ok s ∧ s.progress = false ∧
        s.status ≠ .halted := by
  constructor
  · rintro ⟨bound, hring⟩
    have hends := ringEnds bound image seed phases
    rw [hring] at hends
    cases hends with
    | broken hne => exact absurd rfl (hne _)
    | stuck hround' hsweep hstatus hprogress =>
        -- under the larger of the two bounds both rounds are the same
        obtain ⟨rfl, rfl, rfl⟩ := (hround.mono (Nat.le_max_left fuel bound)).unique
          (hround'.mono (Nat.le_max_right fuel bound))
        have hsame := sweep_mono hfinished (Nat.le_max_left fuel bound)
        rw [← hsame]
        exact ⟨_, sweep_eq_ok_mono hsweep (Nat.le_max_right fuel bound), hprogress, hstatus⟩
  · rintro ⟨s, hsweep, hprogress, hstatus⟩
    refine ⟨max fuel (round + 1), ?_⟩
    have hle := Nat.le_max_left fuel (round + 1)
    obtain ⟨more, hmore⟩ : ∃ more, max fuel (round + 1) - round = more + 1 :=
      ⟨max fuel (round + 1) - round - 1, by omega⟩
    rw [(hround.mono hle).outcome_ring hphases (by omega), hmore, sweeps, Logged.outcome_bind,
      sweep_eq_ok_mono hsweep hle, Except.bind, if_neg hstatus, if_pos (by simp [hprogress])]
    rfl

/-! ### Machines at rest -/

/-- So many more sweeps, whatever they come to: the machines and the signal after them. -/
def further (fuel : Nat) : Nat → List Machine → List Int → Logged Failure (List Machine × List Int)
  | 0, machines, signal => return (machines, signal)
  | count + 1, machines, signal => do
    let s ← Amplifier.sweep fuel machines signal .fresh
    further fuel count s.machines s.signal

/-- Nothing will happen to this machine unless it is fed. -/
def Resting (m : Machine) : Prop :=
  m.output.queue = [] ∧ (m.status = .halted ∨ m.status = .suspended ∧ m.awake.Blocked)

theorem resting_of_turn (h : (turn fuel m signal).outcome = .ok t) : Resting t.machine := by
  obtain ⟨hstatus, hblocked⟩ := rests_of_turn h
  obtain ⟨r, hrun, hout, hmachine, -, -⟩ := exists_run_of_turn h
  have hruns := RunsTo.of_run hrun
  rw [hout] at hruns
  refine ⟨by rw [hmachine, Machine.drain_snd], ?_⟩
  rcases hruns.rested.2 with hhalt | hsuspend
  · exact .inl (hstatus.trans hhalt)
  · have hwaits := hstatus.trans hsuspend
    exact .inr ⟨hwaits, hblocked ⟨by simp [hwaits], by simp [hwaits]⟩⟩

theorem resting_of_sweep (h : (Amplifier.sweep fuel machines signal status).outcome = .ok s) :
    ∀ m ∈ s.machines, Resting m := by
  induction machines generalizing signal status s with
  | nil =>
      obtain rfl := Except.ok.inj h
      simp
  | cons m rest ih =>
      obtain ⟨t, later, ht, hlater, rfl⟩ := exists_turn_of_sweep h
      exact List.forall_mem_cons.2 ⟨resting_of_turn ht, ih hlater⟩

/-- One attempt shows that a machine at rest goes on resting. -/
theorem run_of_resting (h : Resting m) (bound : Nat) :
    ∃ r, m.run (bound + 1) = some r ∧ r.machine = m ∧ r.outcome = .ok m.status := by
  obtain ⟨-, hhalt | ⟨hsuspend, hblocked⟩⟩ := h
  · exact ⟨_, Machine.run_of_halted hhalt _, rfl, by rw [hhalt]⟩
  · have hlive : m.Live := ⟨by simp [hsuspend], by simp [hsuspend]⟩
    obtain ⟨hq, address, he⟩ := hblocked
    have hstep : m.awake.step.outcome = .ok { m.awake with status := .suspended } :=
      (Machine.attempt_iff (by simp)).1 (.blocked he hq)
    refine ⟨_, (Machine.run_of_live hlive _).trans
      ((Machine.proceed_of_ok hstep bound _).trans (if_neg (by simp))), ?_, by rw [hsuspend]⟩
    rw [← hsuspend]
    rfl

theorem turn_of_resting (h : Resting m) (bound : Nat) :
    ∃ t, (turn (bound + 1) m []).outcome = .ok t ∧ t.machine = m ∧ t.signal = [] := by
  obtain ⟨r, hrun, hmachine, hout⟩ := run_of_resting h bound
  have hran : (runMachine (bound + 1) (m.feed [])).outcome = .ok (m, m.status) := by
    rw [Machine.feed_nil, runMachine, hrun]
    show ((r.outcome.map (r.machine, ·)).mapError Failure.fault) = _
    rw [hout, hmachine]
    rfl
  have hdrained : m.drain.2 = m := by
    have hempty : m.output = {} := congrArg Channel.mk h.1
    rw [Machine.drain_snd, ← hempty]
  exact ⟨_, Logged.outcome_bind_eq_ok.2 ⟨_, hran, rfl⟩, hdrained, h.1⟩

/-- A round of machines at rest changes none of them and brings no signal. -/
theorem sweep_of_resting (h : ∀ m ∈ machines, Resting m) (bound : Nat) (status : Status) :
    ∃ s, (Amplifier.sweep (bound + 1) machines [] status).outcome = .ok s ∧
      s.machines = machines ∧ s.signal = [] := by
  induction machines generalizing status with
  | nil => exact ⟨_, rfl, rfl, rfl⟩
  | cons m rest ih =>
      obtain ⟨hmachine, hrest⟩ := List.forall_mem_cons.1 h
      obtain ⟨t, ht, rfl, hsignal⟩ := turn_of_resting hmachine bound
      obtain ⟨later, hlater, hmachines, hlast⟩ := ih hrest t.status
      refine ⟨_, Logged.outcome_bind_eq_ok.2 ⟨t, ht, Logged.outcome_bind_eq_ok.2
        ⟨later, hsignal ▸ hlater, rfl⟩⟩, by rw [hmachines], hlast⟩

theorem further_of_resting (h : ∀ m ∈ machines, Resting m) (bound count : Nat) :
    (further (bound + 1) count machines []).outcome = .ok (machines, []) := by
  induction count with
  | zero => rfl
  | succ count ih =>
      obtain ⟨s, hsweep, rfl, hsignal⟩ := sweep_of_resting h bound .fresh
      refine Logged.outcome_bind_eq_ok.2 ⟨s, hsweep, ?_⟩
      rw [hsignal]
      exact ih

/-! ### Deadlocks -/

/-- **A ring finds exactly its deadlocks.** Whenever all runs of a round come to rest: if the ring
goes on to another round, the machines have completed more instructions than before. A deadlock in
this round is reported if and only if no machine faulted in it, none completed an instruction and
the last one has not stopped. And then every machine has stopped or waits with nothing to read, the
last one waits, no value is under way, and no further round changes any machine. -/
theorem deadlock_exact (hphases : phases ≠ [])
    (hround : Rounds fuel image seed phases round machines signal final)
    (hfinished : (Amplifier.sweep fuel machines signal .fresh).outcome ≠ .error .unfinished) :
    (∀ machines' signal' final',
      Rounds fuel image seed phases (round + 1) machines' signal' final' →
        totalSteps machines < totalSteps machines') ∧
    ((∃ bound, (ring bound image phases seed).outcome = .error (.error (.deadlock round))) ↔
      ∃ s, (Amplifier.sweep fuel machines signal .fresh).outcome = .ok s ∧
        s.machines.map Machine.steps = machines.map Machine.steps ∧ s.status ≠ .halted) ∧
    ∀ s, (Amplifier.sweep fuel machines signal .fresh).outcome = .ok s →
      s.machines.map Machine.steps = machines.map Machine.steps → s.status ≠ .halted →
      (∀ m ∈ s.machines, m.status = .halted ∨ m.status = .suspended ∧ m.input.queue = []) ∧
      s.machines.getLast?.map Machine.status = some .suspended ∧
      s.signal = [] ∧ (∀ m ∈ s.machines, m.output.queue = []) ∧
      ∀ bound count,
        (further (bound + 1) count s.machines s.signal).outcome = .ok (s.machines, []) := by
  have hdrained := hround.drained
  refine ⟨?_, ?_, ?_⟩
  · intro machines' signal' final' hnext
    cases hnext with
    | swept hround' hsweep _ hprogress =>
        obtain ⟨rfl, rfl, rfl⟩ := hround.unique hround'
        exact (steps_of_sweep hdrained hsweep).2.1 hprogress
  · rw [exists_deadlock_iff hphases hround hfinished]
    refine exists_congr fun s => and_congr_right fun hsweep => ?_
    rw [progress_eq_false_iff hdrained hsweep]
  · intro s hsweep hsteps hstatus
    have hresting := resting_of_sweep hsweep
    obtain ⟨hlast, hsilent⟩ := (rests_of_sweep hsweep).2 (hround.ne_nil hphases)
    have hsignal := hsilent ((progress_eq_false_iff hdrained hsweep).2 hsteps)
    refine ⟨?_, ?_, hsignal, fun m hm => (hresting m hm).1, ?_⟩
    · intro m hm
      exact (hresting m hm).2.imp_right fun ⟨hwaits, hblocked⟩ => ⟨hwaits, hblocked.1⟩
    · -- the last machine rests, and it has not stopped
      obtain ⟨last, hget, hstop⟩ := Option.map_eq_some_iff.1 hlast
      rcases (hresting last (List.mem_of_getLast? hget)).2 with hhalt | ⟨hwaits, -⟩
      · exact absurd (hstop.symm.trans hhalt) hstatus
      · rw [hget, Option.map_some, hwaits]
    · intro bound count
      rw [hsignal]
      exact further_of_resting hresting bound count

/-- Two machines that execute their phases: the first stops at once, the second emits 5 and waits.
In the next round the stopped machine is given the 5, which it will never read. -/
theorem deadlock_exact_never_read :
    ∃ first second : Sweep,
      (Amplifier.sweep 9 (ringMachines [3, 2, 0, 5, 3, 0, 99] 7 [99, 104]) [] .fresh).outcome =
        .ok first ∧
      (Amplifier.sweep 9 first.machines first.signal .fresh).outcome = .ok second ∧
      first.signal = [5] ∧ first.machines.map Machine.steps = [2, 2] ∧
      second.machines.map Machine.steps = [2, 2] ∧ second.status = .suspended ∧
      totalSteps (ringMachines [3, 2, 0, 5, 3, 0, 99] 7 [99, 104]) < totalSteps first.machines ∧
      (∃ bound, (ring bound [3, 2, 0, 5, 3, 0, 99] [99, 104] 7).outcome =
        .error (.error (.deadlock 1))) ∧
      ∀ bound count, (further (bound + 1) count second.machines second.signal).outcome =
        .ok (second.machines, []) := by
  obtain ⟨first, hfirst⟩ := exists_eq_ok (x := (Amplifier.sweep 9 (ringMachines
    [3, 2, 0, 5, 3, 0, 99] 7 [99, 104]) [] .fresh).outcome) rfl
  have hstatus : first.status = .suspended := eq_of_map_eq_ok Sweep.status hfirst rfl
  have hprogress : first.progress = true := eq_of_map_eq_ok Sweep.progress hfirst rfl
  have hround := Rounds.swept .loaded hfirst (by rw [hstatus]; decide) hprogress
  have hagain : ((Amplifier.sweep 9 (ringMachines [3, 2, 0, 5, 3, 0, 99] 7 [99, 104]) []
      .fresh).outcome.bind
        fun first => (Amplifier.sweep 9 first.machines first.signal .fresh).outcome) =
      (Amplifier.sweep 9 first.machines first.signal .fresh).outcome := by
    rw [hfirst]
    rfl
  obtain ⟨second, hsecond⟩ := exists_eq_ok (x := (Amplifier.sweep 9 first.machines
    first.signal .fresh).outcome) (by rw [← hagain]; rfl)
  have hsteps : first.machines.map Machine.steps = [2, 2] :=
    eq_of_map_eq_ok (fun s => s.machines.map Machine.steps) hfirst rfl
  have hsame : second.machines.map Machine.steps = [2, 2] :=
    eq_of_map_eq_ok (fun s => s.machines.map Machine.steps) (hagain.trans hsecond) rfl
  have hwaits : second.status = .suspended :=
    eq_of_map_eq_ok Sweep.status (hagain.trans hsecond) rfl
  have hsignal : first.signal = [5] := eq_of_map_eq_ok Sweep.signal hfirst rfl
  have hgrows := (deadlock_exact (by simp) .loaded (by rw [hfirst]; simp)).1 _ _ _ hround
  obtain ⟨-, hiff, hrest⟩ := deadlock_exact (by simp) hround (by rw [hsecond]; simp)
  have hequal := hsame.trans hsteps.symm
  have hlast : second.status ≠ .halted := by rw [hwaits]; decide
  exact ⟨first, second, hfirst, hsecond, hsignal, hsteps, hsame, hwaits, hgrows,
    hiff.2 ⟨second, hsecond, hequal, hlast⟩, (hrest second hsecond hequal hlast).2.2.2.2⟩

end CellMachine.Network
