import CellMachine.Proofs.Network.Confluence
import CellMachine.Proofs.Network.RoundRobin

/-!
# CellMachine.Proofs.Network.Schedules

**What a ring finds, every schedule finds.** A ring takes turns, but nothing depends on the turns.
If it settles on a value, that is the last value the last machine ever emits, under every schedule
that makes it stop; if it finds a deadlock, no schedule makes the last machine stop.

`RingEnds` says in what situation a ring comes to which end. Each situation is a network that steps
lead to (`Visits.reaches`), and confluence carries what is found there to all other schedules.
-/

namespace CellMachine.Network

open Amplifier

variable {fuel : Nat} {image : List Int} {seed : Int} {phases : Phases}
variable {stations net : List Station} {signal : List Int} {s last : Station}
variable {round : Nat} {machines : List Machine} {final : Option Int} {sweep : Sweep}

/-! ### How a ring ends -/

/-- The situations in which a ring ends, and what comes of them. -/
inductive RingEnds (fuel : Nat) (image : List Int) (seed : Int) (phases : Phases) :
    Except Failure Int → Prop where
  /-- There are no machines. -/
  | empty : phases = [] → RingEnds fuel image seed phases (.error (.error .emptyRing))
  /-- A machine faults, or some bound is reached. -/
  | broken {failure : Failure} : (∀ error, failure ≠ .error error) →
      RingEnds fuel image seed phases (.error failure)
  /-- The last machine has stopped, after some value. -/
  | settled {round : Nat} {machines : List Machine} {signal : List Int} {final : Option Int}
      {sweep : Sweep} {value : Int} : Rounds fuel image seed phases round machines signal final →
      (Amplifier.sweep fuel machines signal .fresh).outcome = .ok sweep →
      sweep.status = .halted → sweep.signal.getLast?.or final = some value →
      RingEnds fuel image seed phases (.ok value)
  /-- The last machine has stopped, after none. -/
  | silent {round : Nat} {machines : List Machine} {signal : List Int} {final : Option Int}
      {sweep : Sweep} : Rounds fuel image seed phases round machines signal final →
      (Amplifier.sweep fuel machines signal .fresh).outcome = .ok sweep →
      sweep.status = .halted → sweep.signal.getLast?.or final = none →
      RingEnds fuel image seed phases (.error (.error .haltedWithoutSignal))
  /-- The last machine has not stopped, and no machine did anything. -/
  | stuck {round : Nat} {machines : List Machine} {signal : List Int} {final : Option Int}
      {sweep : Sweep} : Rounds fuel image seed phases round machines signal final →
      (Amplifier.sweep fuel machines signal .fresh).outcome = .ok sweep →
      sweep.status ≠ .halted → sweep.progress = false →
      RingEnds fuel image seed phases (.error (.error (.deadlock round)))

theorem ne_error_of_turn {m : Machine} {failure : Failure}
    (h : (turn fuel m signal).outcome = .error failure) : ∀ error, failure ≠ .error error := by
  rcases Logged.outcome_bind_eq_error.1 h with h | ⟨⟨next, status⟩, -, h⟩
  · unfold runMachine at h
    cases hrun : (m.feed signal).run fuel with
    | none =>
        rw [hrun] at h
        cases h
        simp
    | some r =>
        simp only [hrun] at h
        cases hout : r.outcome with
        | error fault =>
            rw [hout] at h
            cases h
            simp
        | ok status =>
            rw [hout] at h
            cases h
  · cases h

/-- A sweep fails only if a run in it does. -/
theorem ne_error_of_sweep {status : Status} {failure : Failure}
    (h : (Amplifier.sweep fuel machines signal status).outcome = .error failure) :
    ∀ error, failure ≠ .error error := by
  induction machines generalizing signal status with
  | nil => cases h
  | cons m rest ih =>
      rcases Logged.outcome_bind_eq_error.1 h with h | ⟨t, -, h⟩
      · exact ne_error_of_turn h
      · rcases Logged.outcome_bind_eq_error.1 h with h | ⟨later, -, h⟩
        · exact ih h
        · cases h

theorem ringEnds_of_sweeps (h : Rounds fuel image seed phases round machines signal final)
    (bound : Nat) :
    RingEnds fuel image seed phases (sweeps fuel bound round machines signal final).outcome := by
  induction bound generalizing round machines signal final with
  | zero => exact .broken fun _ h => by cases h
  | succ bound ih =>
      rw [sweeps, Logged.outcome_bind]
      cases hsweep : (Amplifier.sweep fuel machines signal .fresh).outcome with
      | error failure => exact .broken (ne_error_of_sweep hsweep)
      | ok sweep =>
          -- the last machine has stopped, or nothing was done, or the next round begins
          rw [Except.bind]
          by_cases hhalt : sweep.status = .halted
          · rw [if_pos hhalt]
            cases hfinal : sweep.signal.getLast?.or final with
            | none => exact .silent h hsweep hhalt hfinal
            | some value => exact .settled h hsweep hhalt hfinal
          · rw [if_neg hhalt]
            cases hprogress : sweep.progress with
            | false => exact .stuck h hsweep hhalt hprogress
            | true => exact ih (h.swept hsweep hhalt hprogress)

theorem ringEnds (fuel : Nat) (image : List Int) (seed : Int) (phases : Phases) :
    RingEnds fuel image seed phases (ring fuel image phases seed).outcome := by
  rw [ring]
  split
  · exact .empty ‹_›
  · exact ringEnds_of_sweeps .loaded fuel

/-! ### The network at the end -/

/-- After a sweep every machine has stopped or waits. The status that the sweep ends with is that of
the last machine, and a sweep without progress ends without a signal. -/
theorem rests_of_sweep {status : Status}
    (h : (Amplifier.sweep fuel machines signal status).outcome = .ok sweep) :
    (∀ m ∈ sweep.machines, m.Live → m.awake.Blocked) ∧
      (machines ≠ [] → sweep.machines.getLast?.map (·.status) = some sweep.status ∧
        (sweep.progress = false → sweep.signal = [])) := by
  induction machines generalizing signal status sweep with
  | nil =>
      obtain rfl := Except.ok.inj h
      simp
  | cons m rest ih =>
      obtain ⟨t, later, ht, hlater, rfl⟩ := exists_turn_of_sweep h
      obtain ⟨hstatus, hrests⟩ := rests_of_turn ht
      obtain ⟨hmachines, hlast⟩ := ih hlater
      refine ⟨?_, fun _ => ?_⟩
      · intro m hm
        rcases List.mem_cons.1 hm with rfl | hm
        · exact hrests
        · exact hmachines m hm
      · cases rest with
        | nil =>
            obtain rfl := Except.ok.inj hlater
            obtain ⟨r, -, -, -, -, hsilent⟩ := exists_run_of_turn ht
            exact ⟨by simp [hstatus], by simpa using hsilent⟩
        | cons m' rest =>
            obtain ⟨hlast, hsilent⟩ := hlast (by simp)
            obtain ⟨last, hget, hlast⟩ := Option.map_eq_some_iff.1 hlast
            refine ⟨by simp [List.getLast?_cons, hget, hlast], fun hprogress => hsilent ?_⟩
            exact (Bool.or_eq_false_iff.1 hprogress).2

/-- The stations of a ring after one more sweep. -/
theorem exists_stations (hround : Rounds fuel image seed phases round machines signal final)
    (hsweep : (Amplifier.sweep fuel machines signal .fresh).outcome = .ok sweep)
    (hphases : phases ≠ []) :
    ∃ stations last,
      Reaches (roused (start image seed phases))
        (roused (carry stations phases.length sweep.signal)) ∧
      stations.getLast? = some last ∧ last.machine.status = sweep.status ∧
      last.emitted.getLast? = sweep.signal.getLast?.or final ∧
      (∀ s ∈ stations, s.execute? = none ∧ s.machine.output.queue = []) ∧
      (sweep.progress = false → sweep.signal = []) := by
  obtain ⟨before, hbefore, rfl, hfinal⟩ := hround.visits
  have hlength : (before.map Station.machine).length = phases.length := by
    rw [List.length_map, hbefore.length.1]
  have hne : before.map Station.machine ≠ [] := mt List.map_eq_nil_iff.1 (hbefore.ne_nil hphases)
  obtain ⟨stations, hvisits, hmachines, hlast⟩ :=
    visits_of_sweep [] _ [] hbefore (List.append_nil _).symm hsweep
  rw [List.length_nil, Nat.zero_add, hlength] at hvisits
  rw [List.nil_append, List.append_nil] at hmachines
  obtain ⟨hrests, hends⟩ := rests_of_sweep hsweep
  obtain ⟨hstatus, hsilent⟩ := hends hne
  have hnonempty := hvisits.ne_nil hphases
  have hget : stations.getLast? = some (stations.getLast hnonempty) :=
    List.getLast?_eq_some_getLast hnonempty
  refine ⟨stations, stations.getLast hnonempty, hvisits.reaches, hget, ?_, ?_, ?_, hsilent⟩
  · rw [← hmachines, List.getLast?_map, hget] at hstatus
    exact Option.some.inj hstatus
  · have hemitted := hlast rfl
    rw [if_neg hne, hfinal hphases, lastEmitted, hget] at hemitted
    exact hemitted
  · intro s hs
    refine ⟨Station.execute?_eq_none.2 (hrests s.machine ?_), hvisits.drained s hs⟩
    rw [← hmachines]
    exact List.mem_map_of_mem hs

/-- The network that a ring has come to after one more sweep. -/
theorem exists_network (hround : Rounds fuel image seed phases round machines signal final)
    (hsweep : (Amplifier.sweep fuel machines signal .fresh).outcome = .ok sweep)
    (hphases : phases ≠ []) :
    ∃ here last, Reaches (roused (start image seed phases)) here ∧
      here[phases.length - 1]? = some last ∧
      (last.machine.status = .halted ↔ sweep.status = .halted) ∧
      last.emitted.getLast? = sweep.signal.getLast?.or final ∧
      (sweep.progress = false → Still here) := by
  obtain ⟨stations, last, hreach, hlast, hstatus, hemitted, hrests, hsilent⟩ :=
    exists_stations hround hsweep hphases
  have hlength : stations.length = phases.length := by
    have hlength := Reaches.length hreach
    simpa [roused, carry] using hlength
  rw [List.getLast?_eq_getElem?, hlength] at hlast
  refine ⟨_, _, hreach, getElem?_roused_carry hlast, ?_, ?_, ?_⟩
  · rw [← hstatus]
    split <;> exact Machine.halted_roused
  · rw [← hemitted]
    split <;> rfl
  · intro hprogress
    -- without progress there is no signal left to deliver, and every station is at rest
    rw [hsilent hprogress, carry_nil]
    refine still_of ?_ ?_ <;> intro s hs <;> obtain ⟨u, hu, rfl⟩ := List.mem_map.1 hs
    · rw [Station.execute?_roused, (hrests u hu).1]
    · rw [Station.output_roused, (hrests u hu).2]

/-! ### All other schedules -/

section Schedules

variable (hround : Rounds fuel image seed phases round machines signal final)
  (hsweep : (Amplifier.sweep fuel machines signal .fresh).outcome = .ok sweep)
  (hnet : Reaches (start image seed phases) net) (hlast : net.getLast? = some last)

include hnet hlast in
theorem getElem?_last :
    phases ≠ [] ∧ (roused net)[phases.length - 1]? = some last.roused := by
  have hlength := Reaches.length hnet
  rw [length_start] at hlength
  constructor
  · rintro rfl
    rw [List.length_eq_zero_iff.1 hlength] at hlast
    cases hlast
  · rw [List.getLast?_eq_getElem?, hlength] at hlast
    rw [getElem?_roused, hlast]
    rfl

variable (hhalt : last.machine.status = .halted)

include hround hsweep hnet hlast hhalt

/-- Where a ring finds its last machine stopped, that machine has emitted what it has emitted
wherever it is found stopped. -/
theorem emitted_of_halted (hstatus : sweep.status = .halted) :
    last.emitted.getLast? = sweep.signal.getLast?.or final := by
  obtain ⟨hphases, hindex⟩ := getElem?_last hnet hlast
  obtain ⟨here, s, hhere, hs, hshalt, hemitted, -⟩ := exists_network hround hsweep hphases
  have heq := Reaches.emitted_unique (Reaches.roused hnet) hhere hindex hs
    (Machine.halted_roused.2 hhalt) (hshalt.2 hstatus)
  rw [← hemitted, ← heq, Station.emitted_roused]

/-- Where a ring finds nothing to do, its last machine has stopped if it ever stops. -/
theorem halted_of_idle (hprogress : sweep.progress = false) : sweep.status = .halted := by
  obtain ⟨hphases, hindex⟩ := getElem?_last hnet hlast
  obtain ⟨here, s, hhere, hs, hshalt, -, hstill⟩ := exists_network hround hsweep hphases
  obtain ⟨t, ht, hthalt⟩ := Reaches.halts hhere (hstill hprogress) (Reaches.roused hnet) hindex
    (Machine.halted_roused.2 hhalt)
  obtain rfl := Option.some.inj (hs.symm.trans ht)
  exact hshalt.1 hthalt

end Schedules

/-- **Schedules agree.** If a ring settles on a value, that is the last value the last machine ever
emits, in every schedule that makes it stop. If the ring stops without a signal, the last machine
has emitted nothing in every schedule that makes it stop. If the ring is deadlocked, no schedule
makes it stop. -/
theorem schedules_agree (fuel : Nat) (image : List Int) (phases : Phases) (seed : Int) :
    (∀ value, (ring fuel image phases seed).outcome = .ok value →
      ∀ net last, Reaches (start image seed phases) net → net.getLast? = some last →
        last.machine.status = .halted → last.emitted.getLast? = some value) ∧
    ((ring fuel image phases seed).outcome = .error (.error .haltedWithoutSignal) →
      ∀ net last, Reaches (start image seed phases) net → net.getLast? = some last →
        last.machine.status = .halted → last.emitted = []) ∧
    ∀ round, (ring fuel image phases seed).outcome = .error (.error (.deadlock round)) →
      ∀ net last, Reaches (start image seed phases) net → net.getLast? = some last →
        last.machine.status ≠ .halted := by
  have hends := ringEnds fuel image seed phases
  refine ⟨?_, ?_, ?_⟩
  · intro value hvalue net last hnet hlast hhalt
    rw [hvalue] at hends
    cases hends with
    | settled hround hsweep hstatus hfinal =>
        rw [emitted_of_halted hround hsweep hnet hlast hhalt hstatus, hfinal]
  · intro hsilent net last hnet hlast hhalt
    rw [hsilent] at hends
    cases hends with
    | broken hne => exact absurd rfl (hne _)
    | silent hround hsweep hstatus hfinal =>
        have hnone := emitted_of_halted hround hsweep hnet hlast hhalt hstatus
        rwa [hfinal, List.getLast?_eq_none_iff] at hnone
  · intro round hstuck net last hnet hlast hhalt
    rw [hstuck] at hends
    cases hends with
    | broken hne => exact absurd rfl (hne _)
    | stuck hround hsweep hstatus hprogress =>
        exact hstatus (halted_of_idle hround hsweep hnet hlast hhalt hprogress)

/-- A ring of two machines that emit 5 and stop: the last one may do so before the first does
anything. A ring of a machine that stops at once. And a ring of a machine that reads a third value
when only two will ever be there. -/
theorem schedules_agree_out_of_turn :
    ((ring 9 [104, 5, 99] [0, 1] 7).outcome = .ok 5 ∧
      ∃ net last, Reaches (start [104, 5, 99] 7 [0, 1]) net ∧ net.getLast? = some last ∧
        last.machine.status = .halted ∧ last.emitted.getLast? = some 5) ∧
    ((ring 9 [99] [0] 7).outcome = .error (.error .haltedWithoutSignal) ∧
      ∃ net last, Reaches (start [99] 7 [0]) net ∧ net.getLast? = some last ∧
        last.machine.status = .halted ∧ last.emitted = []) ∧
    (ring 9 [3, 0, 3, 0, 3, 0, 99] [0] 7).outcome = .error (.error (.deadlock 1)) ∧
      ∀ net last, Reaches (start [3, 0, 3, 0, 3, 0, 99] 7 [0]) net → net.getLast? = some last →
        last.machine.status ≠ .halted := by
  have hemits : ∃ net last, Reaches (start [104, 5, 99] 7 [0, 1]) net ∧ net.getLast? = some last ∧
      last.machine.status = .halted :=
    ⟨_, _, .head (.execute (i := 1) ⟨_, _, rfl, rfl, rfl⟩)
      (.single (.execute (i := 1) ⟨_, _, rfl, rfl, rfl⟩)), rfl, rfl⟩
  have hstops : ∃ net last, Reaches (start [99] 7 [0]) net ∧ net.getLast? = some last ∧
      last.machine.status = .halted :=
    ⟨_, _, .single (.execute (i := 0) ⟨_, _, rfl, rfl, rfl⟩), rfl, rfl⟩
  obtain ⟨net, last, hnet, hlast, hhalt⟩ := hemits
  obtain ⟨net', last', hnet', hlast', hhalt'⟩ := hstops
  refine ⟨⟨rfl, net, last, hnet, hlast, hhalt, ?_⟩, ⟨rfl, net', last', hnet', hlast', hhalt', ?_⟩,
    rfl, ?_⟩
  · exact (schedules_agree 9 [104, 5, 99] [0, 1] 7).1 5 rfl net last hnet hlast hhalt
  · exact (schedules_agree 9 [99] [0] 7).2.1 rfl net' last' hnet' hlast' hhalt'
  · exact (schedules_agree 9 [3, 0, 3, 0, 3, 0, 99] [0] 7).2.2 1 rfl

end CellMachine.Network
