import CellMachine.Proofs.Network.Basic

/-!
# CellMachine.Proofs.Network.RoundRobin

**A ring is a schedule of its network.** A ring hands a signal from machine to machine, outside of
every channel. Put back into the output it was taken from, that signal turns every moment of a ring
into a network that steps lead to (`Visits.reaches`): a turn is the delivery of the signal, value by
value, and then the instructions of one machine, one by one.

So a ring inherits what all schedules keep, and conserves the values that pass through it.

## Proof shape

* `Visits` follows a ring from turn to turn, with the account that each station keeps.
* `Rounds` are the machines and the signal at the beginning of each sweep of `Amplifier.sweeps`;
  `visits_of_sweep` finds the stations behind a sweep, or behind the first turns of one.
-/

namespace CellMachine.Network

open Amplifier Relation

variable {fuel : Nat} {image : List Int} {seed : Int} {phases : Phases}
variable {stations net : List Station} {signal : List Int} {s : Station} {t : Turn}
variable {round turns i j : Nat}

/-! ### Turns -/

theorem exists_eq_ok {ε α : Type} {x : Except ε α} (h : x.isOk = true) : ∃ a, x = .ok a := by
  cases x with
  | error e => cases h
  | ok a => exact ⟨a, rfl⟩

theorem eq_of_map_eq_ok {ε α β : Type} {x : Except ε α} {a : α} {b : β} (f : α → β) (h : x = .ok a)
    (hf : x.map f = .ok b) : f a = b := by
  rw [h] at hf
  exact Except.ok.inj hf

/-- What a turn is: a run with the signal in the input, and then an emptied output. -/
theorem exists_run_of_turn {m : Machine} (h : (turn fuel m signal).outcome = .ok t) :
    ∃ r, (m.feed signal).run fuel = some r ∧ r.outcome = .ok t.status ∧
      t.machine = r.machine.drain.2 ∧ t.signal = r.machine.output.queue ∧
      (t.progress = false → t.signal = []) := by
  obtain ⟨⟨next, status⟩, hnext, ht⟩ := Logged.outcome_bind_eq_ok.1 h
  unfold runMachine at hnext
  cases hrun : (m.feed signal).run fuel with
  | none =>
      rw [hrun] at hnext
      cases hnext
  | some r =>
      simp only [hrun] at hnext
      cases hout : r.outcome with
      | error fault =>
          rw [hout] at hnext
          cases hnext
      | ok status =>
          rw [hout] at hnext
          cases hnext
          cases ht
          exact ⟨r, rfl, hout, rfl, rfl, fun h => by simpa using (Bool.or_eq_false_iff.1 h).1⟩

/-- After its turn a machine has stopped, or waits. -/
theorem rests_of_turn {m : Machine} (h : (turn fuel m signal).outcome = .ok t) :
    t.machine.status = t.status ∧ (t.machine.Live → t.machine.awake.Blocked) := by
  obtain ⟨r, hrun, hout, hmachine, -, -⟩ := exists_run_of_turn h
  have hruns := Machine.RunsTo.of_run hrun
  rw [hout] at hruns
  obtain ⟨hlast, hrests⟩ := hruns.rested
  rw [hmachine]
  refine ⟨hlast, fun hlive => ?_⟩
  rcases hrests with hhalt | hsuspend
  · exact absurd (hlast.trans hhalt) hlive.1
  · rw [hsuspend] at hruns
    obtain ⟨hq, address, he⟩ := hruns.blocked
    exact ⟨hq, address, (Machine.effect_congr (fun _ => rfl) rfl rfl).trans he⟩

/-! ### The stations of a ring -/

/-- A station after its turn: the machine is the one the turn leaves, the account is that of the
instructions executed in it. -/
def Station.rested (s : Station) (fuel : Nat) (signal : List Int) (machine : Machine) : Station :=
  { (s.receive signal).work fuel with machine }

/-- The moments of a ring: in this round, after so many turns, these are the stations, and this is
the signal on its way to the next of them. -/
inductive Visits (fuel : Nat) (image : List Int) (seed : Int) (phases : Phases) :
    Nat → Nat → List Station → List Int → Prop where
  /-- The machines are loaded. -/
  | loaded : Visits fuel image seed phases 0 0 (start image seed phases) []
  /-- The next machine takes its turn. -/
  | served {round i : Nat} {stations : List Station} {signal : List Int} {s : Station} {t : Turn} :
      Visits fuel image seed phases round i stations signal → stations[i]? = some s →
      (turn fuel s.machine signal).outcome = .ok t →
      Visits fuel image seed phases round (i + 1)
        (stations.set i (s.rested fuel signal t.machine)) t.signal
  /-- All machines have had their turn, and the next round begins. -/
  | around {round : Nat} {stations : List Station} {signal : List Int} :
      Visits fuel image seed phases round stations.length stations signal →
      Visits fuel image seed phases (round + 1) 0 stations signal

theorem Visits.length (h : Visits fuel image seed phases round turns stations signal) :
    stations.length = phases.length ∧ turns ≤ phases.length := by
  induction h with
  | loaded => exact ⟨length_start image seed phases, Nat.zero_le _⟩
  | served _ hs _ ih =>
      rw [List.length_set]
      exact ⟨ih.1, ih.1 ▸ lt_length hs⟩
  | around _ ih => exact ⟨ih.1, Nat.zero_le _⟩

theorem Visits.ne_nil (h : Visits fuel image seed phases round turns stations signal)
    (hphases : phases ≠ []) : stations ≠ [] := by
  rw [Ne, ← List.length_eq_zero_iff, h.length.1]
  simpa using hphases

theorem Visits.drained (h : Visits fuel image seed phases round turns stations signal) :
    ∀ s ∈ stations, s.machine.output.queue = [] := by
  induction h with
  | loaded =>
      intro s hs
      obtain ⟨i, hi⟩ := List.mem_iff_getElem?.1 hs
      rw [getElem?_start] at hi
      obtain ⟨phase, -, rfl⟩ := Option.map_eq_some_iff.1 hi
      rfl
  | served _ _ ht ih =>
      intro s hs
      rcases List.mem_or_eq_of_mem_set hs with hs | rfl
      · exact ih s hs
      · obtain ⟨r, -, -, hmachine, -, -⟩ := exists_run_of_turn ht
        simp only [Station.rested, hmachine, Machine.drain_snd]
  | around _ ih => exact ih

/-! ### A ring is a schedule -/

/-- The station before this one in the ring. -/
def holder (stations : List Station) (i : Nat) : Nat :=
  (i + (stations.length - 1)) % stations.length

theorem holder_succ (h : i < stations.length) : holder stations (i + 1) = i := by
  have hsum : i + 1 + (stations.length - 1) = i + stations.length := by omega
  rw [holder, hsum, Nat.add_mod_right, Nat.mod_eq_of_lt h]

theorem holder_length (stations : List Station) :
    holder stations stations.length = holder stations 0 := by
  rw [holder, holder, Nat.add_mod_left, Nat.zero_add]

theorem follower_holder (h : i < stations.length) : follower stations (holder stations i) = i := by
  have hsum : i + (stations.length - 1) + 1 = i + stations.length := by omega
  rw [follower, holder, Nat.mod_add_mod, hsum, Nat.add_mod_right, Nat.mod_eq_of_lt h]

theorem modify_flank_nil (net : List Station) (i : Nat) : net.modify i (·.flank [] []) = net := by
  have hid : (fun s : Station => s.flank [] []) = id := funext fun s => Station.flank_nil
  rw [hid, List.modify_id]

theorem modify_receive_nil (net : List Station) (i : Nat) : net.modify i (·.receive []) = net := by
  have hid : (fun s : Station => s.receive []) = id := funext fun s => Station.receive_nil
  rw [hid, List.modify_id]

/-- The stations with the signal still in the output that it was taken from. -/
def carry (stations : List Station) (i : Nat) (signal : List Int) : List Station :=
  stations.modify (holder stations i) (·.flank signal [])

theorem carry_nil (stations : List Station) (i : Nat) : carry stations i [] = stations :=
  modify_flank_nil stations _

theorem getElem?_roused_carry (hs : stations[j]? = some s) :
    (roused (carry stations i signal))[j]? =
      some (if holder stations i = j then s.flank signal [] else s).roused := by
  rw [getElem?_roused, carry, List.getElem?_modify, hs]
  rfl

/-- What waits in an output can be delivered, value by value. -/
theorem reaches_delivered (hj : j < net.length) (signal : List Int) :
    Reaches (net.modify j (·.flank signal []))
      (net.modify (follower net j) (·.receive signal)) := by
  induction signal generalizing net with
  | nil => rw [modify_flank_nil, modify_receive_nil]
  | cons value rest ih =>
      -- one value moves, and the others from a network that has received it
      have hlength : (net.modify (follower net j) (·.receive [value])).length = net.length :=
        List.length_modify _ _ _
      have hfront : Front (net.modify j (·.flank (value :: rest) [])) j value := by
        refine ⟨net[j].flank (value :: rest) [], rest ++ net[j].machine.output.queue, ?_, rfl⟩
        rw [List.getElem?_modify_eq, List.getElem?_eq_getElem hj]
        rfl
      have hforward : forward (net.modify j (·.flank (value :: rest) [])) j value =
          (net.modify (follower net j) (·.receive [value])).modify j (·.flank rest []) := by
        rw [forward, List.modify_modify_eq, follower_congr (List.length_modify _ _ _)]
        exact modify_comm (f := (·.flank rest [])) (g := (·.receive [value]))
          (fun _ s => (Station.receive_flank rest [value]).symm) net
      have hlast : (net.modify (follower net j) (·.receive [value])).modify (follower net j)
          (·.receive rest) = net.modify (follower net j) (·.receive (value :: rest)) := by
        rw [List.modify_modify_eq]
        exact congrArg _ (funext fun s => Station.receive_receive [value] rest)
      have hrest := ih (hlength ▸ hj)
      rw [follower_congr hlength, hlast, ← hforward] at hrest
      exact .head (.deliver ⟨value, hfront, rfl⟩) hrest

theorem set_self (hs : net[i]? = some s) : net.set i s = net := by
  obtain ⟨hi, rfl⟩ := List.getElem?_eq_some_iff.1 hs
  exact List.set_getElem_self hi

theorem reaches_worked (hs : net[i]? = some s) (fuel : Nat) :
    Reaches net (net.set i (s.work fuel)) := by
  induction fuel generalizing net s with
  | zero => rw [Station.work, set_self hs]
  | succ fuel ih =>
      cases hexec : s.execute? with
      | none => rw [Station.work_of_none hexec, set_self hs]
      | some next =>
          have hrest := ih (List.getElem?_set_self (a := next) (lt_length hs))
          rw [List.set_set] at hrest
          rw [Station.work_of_some hexec]
          exact .head (.execute ⟨s, next, hs, hexec, rfl⟩) hrest

/-- What a turn leaves is what the instructions executed in it leave, up to how it waits. -/
theorem roused_rested (ht : (turn fuel s.machine signal).outcome = .ok t) :
    ((s.rested fuel signal t.machine).flank t.signal []).roused =
      ((s.receive signal).work fuel).roused := by
  obtain ⟨r, hrun, -, hmachine, hsignal, -⟩ := exists_run_of_turn ht
  have hlast : t.machine.flank t.signal [] = r.machine := by
    rw [hmachine, hsignal]
    simp [Machine.flank, Channel.extend]
  have hwork := Station.work_of_run (s := s.receive signal) hrun
  simp only [Station.roused, Station.rested, Station.flank, hlast, hwork]

theorem roused_carry_served (hs : stations[i]? = some s)
    (ht : (turn fuel s.machine signal).outcome = .ok t) :
    roused (carry (stations.set i (s.rested fuel signal t.machine)) (i + 1) t.signal) =
      roused ((stations.modify i (·.receive signal)).set i ((s.receive signal).work fuel)) := by
  have hi := lt_length hs
  have hreceived : i < (stations.modify i (·.receive signal)).length := by
    rwa [List.length_modify]
  apply List.ext_getElem?
  intro k
  rw [carry, holder, List.length_set, ← holder, holder_succ hi, getElem?_roused, getElem?_roused,
    List.getElem?_modify]
  by_cases hik : i = k
  · subst hik
    rw [List.getElem?_set_self hi, List.getElem?_set_self hreceived]
    simpa using roused_rested ht
  · rw [List.getElem?_set_ne hik, List.getElem?_set_ne hik, List.getElem?_modify_ne _ _ hik]
    simp [hik]

/-- **A ring is a schedule**: steps of the network lead to every moment of it. -/
theorem Visits.reaches (h : Visits fuel image seed phases round turns stations signal) :
    Reaches (roused (start image seed phases)) (roused (carry stations turns signal)) := by
  induction h with
  | loaded => rw [carry_nil]
  | @served round i stations signal s t hvisits hs ht ih =>
      -- first the signal is delivered to station `i`, then station `i` executes what it can
      have hi := lt_length hs
      have hholder : holder stations i < stations.length := Nat.mod_lt _ (by omega)
      have hdelivered :
          Reaches (carry stations i signal) (stations.modify i (·.receive signal)) := by
        have hreach := reaches_delivered hholder signal
        rwa [follower_holder hi] at hreach
      have hreceived : (stations.modify i (·.receive signal))[i]? = some (s.receive signal) := by
        rw [List.getElem?_modify_eq, hs]
        rfl
      have hworked := reaches_worked hreceived fuel
      rw [roused_carry_served hs ht]
      exact ih.trans (Reaches.roused (hdelivered.trans hworked))
  | @around round stations signal hvisits ih =>
      rwa [carry, holder_length] at ih

/-! ### Sweeps -/

theorem exists_turn_of_sweep {m : Machine} {rest : List Machine} {status : Status} {sweep : Sweep}
    (h : (Amplifier.sweep fuel (m :: rest) signal status).outcome = .ok sweep) :
    ∃ t later, (turn fuel m signal).outcome = .ok t ∧
      (Amplifier.sweep fuel rest t.signal t.status).outcome = .ok later ∧
      sweep = { later with
        machines := t.machine :: later.machines, progress := t.progress || later.progress } := by
  obtain ⟨t, ht, h⟩ := Logged.outcome_bind_eq_ok.1 h
  obtain ⟨later, hlater, h⟩ := Logged.outcome_bind_eq_ok.1 h
  exact ⟨t, later, ht, hlater, (Except.ok.inj h).symm⟩

/-- The last value that the last station ever emitted. -/
def lastEmitted (stations : List Station) : Option Int :=
  stations.getLast?.bind (·.emitted.getLast?)

/-- In its turn a station emits the signal it hands on. -/
theorem emitted_rested (hq : s.machine.output.queue = [])
    (ht : (turn fuel s.machine signal).outcome = .ok t) :
    (s.rested fuel signal t.machine).emitted = s.emitted ++ t.signal := by
  obtain ⟨-, values, hemitted, hout⟩ := Station.work_moves (s.receive signal) fuel
  -- its output was empty, so what waits there after its instructions is all it emitted in them
  have hroused := congrArg (fun s : Station => s.machine.output.queue) (roused_rested ht)
  have hsignal : t.signal = values := by
    obtain ⟨r, -, -, hmachine, -, -⟩ := exists_run_of_turn ht
    rw [Station.output_receive, hq, List.nil_append] at hout
    simpa [Station.roused, Station.flank, Station.rested, hmachine, hout] using hroused
  rw [hsignal]
  exact hemitted

theorem lastEmitted_served (hq : s.machine.output.queue = [])
    (hs : stations[i]? = some s) (ht : (turn fuel s.machine signal).outcome = .ok t) :
    lastEmitted (stations.set i (s.rested fuel signal t.machine)) =
      if i + 1 = stations.length then t.signal.getLast?.or (lastEmitted stations)
      else lastEmitted stations := by
  have hi := lt_length hs
  have hlast : ∀ l : List Station, lastEmitted l = l[l.length - 1]?.bind (·.emitted.getLast?) := by
    intro l
    rw [lastEmitted, List.getLast?_eq_getElem?]
  rw [hlast, hlast, List.length_set]
  split
  · rename_i hlast
    have hindex : stations.length - 1 = i := by omega
    rw [hindex, List.getElem?_set_self hi, hs, Option.bind_some, Option.bind_some,
      emitted_rested hq ht, List.getLast?_append]
  · rw [List.getElem?_set_ne (by omega)]

/-- The stations behind a sweep of some machines in a row. -/
theorem visits_of_sweep (done todo later : List Machine) {status : Status} {sweep : Sweep}
    (h : Visits fuel image seed phases round done.length stations signal)
    (hm : stations.map Station.machine = done ++ todo ++ later)
    (hsweep : (Amplifier.sweep fuel todo signal status).outcome = .ok sweep) :
    ∃ stations', Visits fuel image seed phases round (done.length + todo.length) stations'
        sweep.signal ∧
      stations'.map Station.machine = done ++ sweep.machines ++ later ∧
      (later = [] → lastEmitted stations' = if todo = [] then lastEmitted stations
        else sweep.signal.getLast?.or (lastEmitted stations)) := by
  -- the induction moves one machine after another from `todo` to `done`
  induction todo generalizing done stations signal status sweep with
  | nil =>
      obtain rfl := Except.ok.inj hsweep
      exact ⟨stations, h, hm, fun _ => rfl⟩
  | cons m rest ih =>
      obtain ⟨t, next, ht, hnext, rfl⟩ := exists_turn_of_sweep hsweep
      have hget : (stations.map Station.machine)[done.length]? = some m := by
        rw [hm]
        simp
      rw [List.getElem?_map] at hget
      obtain ⟨s, hs, rfl⟩ := Option.map_eq_some_iff.1 hget
      have hserved := h.served hs ht
      have hm' : (stations.set done.length (s.rested fuel signal t.machine)).map Station.machine =
          (done ++ [t.machine]) ++ rest ++ later := by
        rw [List.map_set, hm]
        simp [Station.rested]
      obtain ⟨stations', hvisits, hmachines, hemitted⟩ :=
        ih (done ++ [t.machine]) (by simpa using hserved) hm' hnext
      refine ⟨stations', ?_, ?_, ?_⟩
      · simpa [Nat.add_assoc, Nat.add_comm 1] using hvisits
      · simpa using hmachines
      · intro hlater
        have hlength : stations.length = done.length + (rest.length + 1) := by
          have hlength := congrArg List.length hm
          simpa [hlater] using hlength
        have hq := h.drained s (List.mem_of_getElem? hs)
        rw [hemitted hlater, lastEmitted_served hq hs ht, hlength]
        cases rest with
        | nil =>
            obtain rfl := Except.ok.inj hnext
            simp
        | cons _ _ => simp

/-! ### Rounds -/

/-- The machines of a ring, the signal and the last value of the last machine at the beginning of a
round: no sweep so far has settled the ring or found it deadlocked. -/
inductive Rounds (fuel : Nat) (image : List Int) (seed : Int) (phases : Phases) :
    Nat → List Machine → List Int → Option Int → Prop where
  /-- Before the first round. -/
  | loaded : Rounds fuel image seed phases 0 (ringMachines image seed phases) [] none
  /-- After one more sweep. -/
  | swept {round : Nat} {machines : List Machine} {signal : List Int} {final : Option Int}
      {sweep : Sweep} :
      Rounds fuel image seed phases round machines signal final →
      (Amplifier.sweep fuel machines signal .fresh).outcome = .ok sweep →
      sweep.status ≠ .halted → sweep.progress = true →
      Rounds fuel image seed phases (round + 1) sweep.machines sweep.signal
        (sweep.signal.getLast?.or final)

variable {machines : List Machine} {final : Option Int} {sweep : Sweep}

/-- The beginnings of rounds are where a ring passes: what comes of it is what comes of going on
from there. -/
theorem Rounds.outcome_ring (h : Rounds fuel image seed phases round machines signal final)
    (hphases : phases ≠ []) (hle : round ≤ fuel) :
    (ring fuel image phases seed).outcome =
      (sweeps fuel (fuel - round) round machines signal final).outcome := by
  induction h with
  | loaded => rw [ring, if_neg hphases, Nat.sub_zero]
  | @swept round machines signal final sweep _ hsweep hstatus hprogress ih =>
      rw [ih (by omega), show fuel - round = fuel - (round + 1) + 1 by omega, sweeps,
        Logged.outcome_bind, hsweep, Except.bind, if_neg hstatus, if_neg (by simp [hprogress])]

theorem Rounds.visits (h : Rounds fuel image seed phases round machines signal final) :
    ∃ stations, Visits fuel image seed phases round 0 stations signal ∧
      stations.map Station.machine = machines ∧
      (phases ≠ [] → lastEmitted stations = final) := by
  induction h with
  | loaded =>
      refine ⟨_, .loaded, ?_, ?_⟩
      · rw [start, List.map_map]
        exact List.map_id _
      · intro _
        simp [lastEmitted, start, List.getLast?_map, Option.bind_map, Function.comp_def]
  | @swept round machines signal final sweep _ hsweep _ _ ih =>
      obtain ⟨stations, hvisits, rfl, hfinal⟩ := ih
      obtain ⟨stations', hvisits', hmachines, hlast⟩ :=
        visits_of_sweep [] _ [] hvisits (List.append_nil _).symm hsweep
      have hlength : stations'.length = (stations.map Station.machine).length := by
        rw [hvisits'.length.1, List.length_map, hvisits.length.1]
      rw [List.length_nil, Nat.zero_add, ← hlength] at hvisits'
      refine ⟨stations', hvisits'.around, by simpa using hmachines, ?_⟩
      intro hphases
      have hne : stations.map Station.machine ≠ [] :=
        mt List.map_eq_nil_iff.1 (hvisits.ne_nil hphases)
      rw [hlast rfl, if_neg hne, hfinal hphases]

/-! ### Conservation -/

theorem holder_lt (h : j < stations.length) (i : Nat) : holder stations i < stations.length :=
  Nat.mod_lt _ (by omega)

theorem holder_eq_iff (h : j < stations.length) (turns : Nat) :
    holder stations turns = holder stations j ↔ j = turns % stations.length := by
  have hmod : holder stations (turns % stations.length) = holder stations turns := by
    rw [holder, Nat.mod_add_mod, holder]
  rw [← hmod]
  constructor
  · intro heq
    have hfollower := congrArg (follower stations) heq
    rw [follower_holder h, follower_holder (Nat.mod_lt _ (by omega))] at hfollower
    exact hfollower.symm
  · rintro rfl
    rfl

/-- Whatever a station has consumed or still finds waiting is what it was given at first and what
its predecessor has emitted, except the signal on its way. -/
theorem Visits.intake (h : Visits fuel image seed phases round turns stations signal)
    {p : Station} (hs : stations[j]? = some s) (hp : stations[holder stations j]? = some p) :
    s.intake ++ (if j = turns % stations.length then signal else []) =
      endowment seed phases j ++ p.emitted := by
  have hj := lt_length hs
  have hnet := Reaches.conserved h.reaches (conserved_start image seed phases)
  have hlength : (roused (carry stations turns signal)).length = stations.length := by
    simp [roused, carry]
  -- only the output of station `holder stations turns` is not empty in that network
  have hbefore := hnet (holder stations j) _ _ (getElem?_roused_carry hp) (by
    rw [follower_congr hlength, follower_holder hj]
    exact getElem?_roused_carry hs)
  rw [follower_congr hlength, follower_holder hj] at hbefore
  have hintake : (if holder stations turns = j then s.flank signal [] else s).roused.intake =
      s.intake := by
    split <;> simp
  have hq := h.drained p (List.mem_of_getElem? hp)
  have hheld := holder_eq_iff hj turns
  rw [hintake, Station.output_roused, Station.emitted_roused] at hbefore
  by_cases hnext : j = turns % stations.length
  · have hout : (p.flank signal []).machine.output.queue = signal := by
      simp [Station.flank, hq]
    rw [if_pos (hheld.2 hnext), hout, Station.emitted_flank] at hbefore
    rwa [if_pos hnext]
  · rw [if_neg (mt hheld.1 hnext), hq] at hbefore
    rwa [if_neg hnext]

/-- **A ring conserves the values that pass through it.** After every turn, in every round, all
outputs are empty, and whatever a machine has consumed, followed by whatever waits for it, is its
phase, then the seed for the first machine, then all that its predecessor has ever emitted, in
order; only the signal just handed on has not reached the next machine. -/
theorem values_conserved (hround : Rounds fuel image seed phases round machines signal final)
    (hi : i < phases.length)
    (hsweep : (Amplifier.sweep fuel (machines.take (i + 1)) signal .fresh).outcome = .ok sweep) :
    ∃ stations, Visits fuel image seed phases round (i + 1) stations sweep.signal ∧
      stations.map Station.machine = sweep.machines ++ machines.drop (i + 1) ∧
      (∀ s ∈ stations, s.machine.output.queue = []) ∧
      ∀ j phase, phases[j]? = some phase → ∃ s p, stations[j]? = some s ∧
        stations[(j + (phases.length - 1)) % phases.length]? = some p ∧
        s.consumed ++ s.machine.input.queue ++
            (if j = (i + 1) % phases.length then sweep.signal else []) =
          phase :: (if j = 0 then [seed] else []) ++ p.emitted := by
  obtain ⟨before, hbefore, rfl, -⟩ := hround.visits
  have hlength : before.length = phases.length := hbefore.length.1
  have hparts : before.map Station.machine = [] ++ (before.map Station.machine).take (i + 1) ++
      (before.map Station.machine).drop (i + 1) := by
    rw [List.nil_append, List.take_append_drop]
  obtain ⟨stations, hvisits, hmachines, -⟩ :=
    visits_of_sweep [] _ _ hbefore hparts hsweep
  have hturns : ([] : List Machine).length + ((before.map Station.machine).take (i + 1)).length =
      i + 1 := by
    simp [hlength]
    omega
  rw [hturns] at hvisits
  refine ⟨stations, hvisits, hmachines, hvisits.drained, ?_⟩
  intro j phase hphase
  have hj : j < stations.length := hvisits.length.1 ▸ (List.getElem?_eq_some_iff.1 hphase).1
  have hindex : holder stations j = (j + (phases.length - 1)) % phases.length := by
    rw [holder, hvisits.length.1]
  obtain ⟨s, hs⟩ : ∃ s, stations[j]? = some s := ⟨_, List.getElem?_eq_getElem hj⟩
  obtain ⟨p, hp⟩ : ∃ p, stations[holder stations j]? = some p :=
    ⟨_, List.getElem?_eq_getElem (holder_lt hj j)⟩
  have hvalues := hvisits.intake hs hp
  rw [hvisits.length.1] at hvalues
  refine ⟨s, p, hs, hindex ▸ hp, ?_⟩
  simpa [endowment, hphase, Station.intake] using hvalues

/-- A machine that copies four values and stops, alone in a ring with phase 7 and seed 5. In its
second turn it reads what it emitted in the first, and what it emits then is never read. -/
theorem values_conserved_alone :
    ∃ (first second : Sweep) (stations : List Station) (s p : Station),
      (Amplifier.sweep 9 (ringMachines
        [3, 0, 4, 0, 3, 0, 4, 0, 3, 0, 4, 0, 3, 0, 4, 0, 99] 5 [7]) [] .fresh).outcome = .ok first ∧
      (Amplifier.sweep 9 (first.machines.take 1) first.signal .fresh).outcome = .ok second ∧
      second.status = .halted ∧ second.signal = [7, 5] ∧
      stations.map Station.machine = second.machines ++ first.machines.drop 1 ∧
      stations[0]? = some s ∧ stations[0]? = some p ∧
      s.consumed ++ s.machine.input.queue ++ [7, 5] = [7, 5] ++ p.emitted := by
  obtain ⟨first, hfirst⟩ := exists_eq_ok (x := (Amplifier.sweep 9 (ringMachines
    [3, 0, 4, 0, 3, 0, 4, 0, 3, 0, 4, 0, 3, 0, 4, 0, 99] 5 [7]) [] .fresh).outcome) rfl
  have hstatus : first.status = .suspended :=
    (Except.ok.inj (congrArg (Except.map Sweep.status) hfirst)).symm
  have hprogress : first.progress = true :=
    (Except.ok.inj (congrArg (Except.map Sweep.progress) hfirst)).symm
  have hround := Rounds.swept .loaded hfirst (by rw [hstatus]; decide) hprogress
  have hagain : ((Amplifier.sweep 9 (ringMachines
      [3, 0, 4, 0, 3, 0, 4, 0, 3, 0, 4, 0, 3, 0, 4, 0, 99] 5 [7]) [] .fresh).outcome.bind
        fun first => (Amplifier.sweep 9 (first.machines.take 1) first.signal .fresh).outcome) =
      (Amplifier.sweep 9 (first.machines.take 1) first.signal .fresh).outcome := by
    rw [hfirst]
    rfl
  obtain ⟨second, hsecond⟩ := exists_eq_ok (x := (Amplifier.sweep 9 (first.machines.take 1)
    first.signal .fresh).outcome) (by rw [← hagain]; rfl)
  have hhalted : second.status = .halted :=
    (Except.ok.inj (congrArg (Except.map Sweep.status) (hagain.trans hsecond))).symm
  have hsignal : second.signal = [7, 5] :=
    (Except.ok.inj (congrArg (Except.map Sweep.signal) (hagain.trans hsecond))).symm
  obtain ⟨stations, -, hmachines, -, hvalues⟩ := values_conserved hround (by decide) hsecond
  obtain ⟨s, p, hs, hp, hconserved⟩ := hvalues 0 7 rfl
  refine ⟨first, second, stations, s, p, hfirst, hsecond, hhalted, hsignal, hmachines, hs, hp, ?_⟩
  rw [hsignal] at hconserved
  exact hconserved

end CellMachine.Network
