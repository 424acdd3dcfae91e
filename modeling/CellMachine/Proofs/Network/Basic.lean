import CellMachine.Amplifier.Ring
import CellMachine.Proofs.Network.Station
import Mathlib.Logic.Relation

/-!
# CellMachine.Proofs.Network.Basic

**The network behind a ring.** The machines of a ring, free of the ring's turns: at any moment any
machine that has neither stopped nor faulted may execute one instruction, and the front of any
output may move to the back of the next machine's input. Which of these happens is left open; a
ring is one schedule among all.

What every schedule keeps is the account of the values (`Step.conserved`): all that a machine has
consumed, all that waits for it, and all that waits before it is what it was given at first and what
its predecessor has emitted, in this order.
-/

namespace CellMachine.Network

open Amplifier Relation

variable {net net' : List Station} {s s' t : Station} {i j : Nat}

/-! ### Steps -/

/-- The position that a station delivers to. -/
def follower (net : List Station) (i : Nat) : Nat := (i + 1) % net.length

/-- The station at this position executes an instruction. -/
def Executes (i : Nat) (net net' : List Station) : Prop :=
  ∃ s s', net[i]? = some s ∧ s.execute? = some s' ∧ net' = net.set i s'

/-- This value is the front of the output at this position. -/
def Front (net : List Station) (i : Nat) (value : Int) : Prop :=
  ∃ s rest, net[i]? = some s ∧ s.machine.output.queue = value :: rest

/-- The network after this value has moved from the output at this position to the next input. -/
def forward (net : List Station) (i : Nat) (value : Int) : List Station :=
  (net.modify i Station.ship).modify (follower net i) (·.receive [value])

/-- The front of the output at this position moves to the back of the next input. -/
def Delivers (i : Nat) (net net' : List Station) : Prop :=
  ∃ value, Front net i value ∧ net' = forward net i value

/-- One step of a network. -/
inductive Step (net net' : List Station) : Prop where
  | execute {i : Nat} : Executes i net net' → Step net net'
  | deliver {i : Nat} : Delivers i net net' → Step net net'

/-- Any number of steps. -/
abbrev Reaches : List Station → List Station → Prop := ReflTransGen Step

/-- The machines of a ring as they are loaded, nothing consumed and nothing emitted. -/
def start (image : List Int) (seed : Int) (phases : Phases) : List Station :=
  (ringMachines image seed phases).map fun machine => { machine }

@[simp] theorem length_start (image : List Int) (seed : Int) (phases : Phases) :
    (start image seed phases).length = phases.length := by
  simp [start]

theorem lt_length (h : net[i]? = some s) : i < net.length :=
  (List.getElem?_eq_some_iff.1 h).1

theorem Front.lt {value : Int} (h : Front net i value) : i < net.length := by
  obtain ⟨s, rest, hs, -⟩ := h
  exact lt_length hs

@[simp] theorem length_forward (net : List Station) (i : Nat) (value : Int) :
    (forward net i value).length = net.length := by
  rw [forward, List.length_modify, List.length_modify]

theorem Executes.length (h : Executes i net net') : net'.length = net.length := by
  obtain ⟨s, s', -, -, rfl⟩ := h
  exact List.length_set

theorem Delivers.length (h : Delivers i net net') : net'.length = net.length := by
  obtain ⟨value, -, rfl⟩ := h
  exact length_forward net i value

theorem Step.length (h : Step net net') : net'.length = net.length := by
  cases h with
  | execute h => exact h.length
  | deliver h => exact h.length

theorem Reaches.length (h : Reaches net net') : net'.length = net.length := by
  induction h with
  | refl => rfl
  | tail _ hstep ih => exact hstep.length.trans ih

theorem follower_congr (h : net'.length = net.length) (i : Nat) :
    follower net' i = follower net i := by
  rw [follower, h, follower]

/-- No two stations deliver to the same one. -/
theorem follower_inj (hi : i < net.length) (hj : j < net.length)
    (h : follower net i = follower net j) : i = j := by
  have hnext : ∀ k < net.length, follower net k = if k + 1 = net.length then 0 else k + 1 := by
    intro k hk
    unfold follower
    split
    · rename_i hlast
      rw [hlast, Nat.mod_self]
    · exact Nat.mod_eq_of_lt (by omega)
  rw [hnext i hi, hnext j hj] at h
  split at h <;> split at h <;> omega

/-- Changes to two stations can be made in either order, and so can changes to one station that
commute. -/
theorem modify_comm {f g : Station → Station} (h : i = j → ∀ s, f (g s) = g (f s))
    (net : List Station) : (net.modify i f).modify j g = (net.modify j g).modify i f := by
  apply List.ext_getElem?
  intro k
  simp only [List.getElem?_modify]
  cases net[k]? with
  | none => rfl
  | some s =>
      by_cases hi : i = k
      · by_cases hj : j = k
        · simp [hi, hj, h (hi.trans hj.symm)]
        · simp [hi, hj]
      · simp [hi]

/-! ### What a step does to each station -/

/-- A station after an instruction somewhere in the network. If it was its own, what it emitted
waits in its output. -/
theorem Executes.station (h : Executes i net net') (ht : net'[j]? = some t) :
    ∃ s, net[j]? = some s ∧ t.intake = s.intake ∧
      ∃ values, t.emitted = s.emitted ++ values ∧
        t.machine.output.queue = s.machine.output.queue ++ values := by
  obtain ⟨s, s', hs, hexec, rfl⟩ := h
  by_cases hij : i = j
  · subst hij
    rw [List.getElem?_set_self (lt_length hs), Option.some.injEq] at ht
    exact ⟨s, hs, ht ▸ Station.execute?_moves hexec⟩
  · rw [List.getElem?_set_ne hij] at ht
    exact ⟨t, ht, rfl, [], by simp, by simp⟩

/-- A station after a delivery somewhere in the network. One value more has reached it if it is
the one delivered to, and one waits no longer if it is the one delivered from. -/
theorem Delivers.station (h : Delivers i net net') :
    ∃ value, ∀ {j t}, net'[j]? = some t → ∃ s, net[j]? = some s ∧ t.emitted = s.emitted ∧
      t.intake = s.intake ++ (if follower net i = j then [value] else []) ∧
      s.machine.output.queue = (if i = j then [value] else []) ++ t.machine.output.queue := by
  obtain ⟨value, ⟨s, rest, hs, hq⟩, rfl⟩ := h
  refine ⟨value, fun {j t} ht => ?_⟩
  rw [forward, List.getElem?_modify, List.getElem?_modify] at ht
  obtain ⟨u, hu, ht⟩ := Option.map_eq_some_iff.1 ht
  obtain ⟨v, hv, hu⟩ := Option.map_eq_some_iff.1 hu
  refine ⟨v, hv, ?_, ?_, ?_⟩
  · rw [← ht, ← hu]
    split <;> split <;> simp
  · rw [← ht, ← hu]
    split <;> split <;> simp
  · have houtput : t.machine.output = u.machine.output := by
      rw [← ht]
      split <;> simp
    rw [houtput, ← hu]
    split
    · subst i
      obtain rfl := Option.some.inj (hs.symm.trans hv)
      rw [Station.output_ship, hq]
      rfl
    · rfl

/-! ### Conservation -/

/-- All that ever reached a station, and what waits in front of it, is what it was given at first
and then what its predecessor has emitted. -/
def Conserved (given : Nat → List Int) (net : List Station) : Prop :=
  ∀ i s t, net[i]? = some s → net[follower net i]? = some t →
    t.intake ++ s.machine.output.queue = given (follower net i) ++ s.emitted

variable {given : Nat → List Int}

theorem Executes.conserved (h : Executes j net net') (hnet : Conserved given net) :
    Conserved given net' := by
  intro i s' t' hs' ht'
  rw [follower_congr h.length] at ht' ⊢
  -- what the station emits is in its output and in its account, and no input has changed
  obtain ⟨s, hs, -, values, hemitted, houtput⟩ := h.station hs'
  obtain ⟨t, ht, hintake, -⟩ := h.station ht'
  rw [hintake, houtput, hemitted, ← List.append_assoc, hnet i s t hs ht, List.append_assoc]

theorem Delivers.conserved (h : Delivers j net net') (hnet : Conserved given net) :
    Conserved given net' := by
  intro i s' t' hs' ht'
  rw [follower_congr h.length] at ht' ⊢
  obtain ⟨value, hstation⟩ := h.station
  obtain ⟨s, hs, hemitted, -, houtput⟩ := hstation hs'
  obtain ⟨t, ht, -, hintake, -⟩ := hstation ht'
  -- the value leaves this output exactly if it enters that input
  have hsame : follower net j = follower net i ↔ j = i :=
    ⟨follower_inj h.choose_spec.1.lt (lt_length hs), fun h => h ▸ rfl⟩
  simp only [hsame] at hintake
  rw [hintake, List.append_assoc, ← houtput, hemitted]
  exact hnet i s t hs ht

theorem Step.conserved (h : Step net net') (hnet : Conserved given net) : Conserved given net' := by
  cases h with
  | execute h => exact h.conserved hnet
  | deliver h => exact h.conserved hnet

theorem Reaches.conserved (h : Reaches net net') (hnet : Conserved given net) :
    Conserved given net' := by
  induction h with
  | refl => exact hnet
  | tail _ hstep ih => exact hstep.conserved ih

/-! ### Stopped stations -/

/-- A station that has stopped has stopped for good, and emits nothing more. -/
theorem Step.halted (h : Step net net') (hs : net[j]? = some s)
    (hhalt : s.machine.status = .halted) :
    ∃ t, net'[j]? = some t ∧ t.machine.status = .halted ∧ t.emitted = s.emitted := by
  cases h with
  | @execute i h =>
      obtain ⟨u, u', hu, hexec, rfl⟩ := h
      have hij : i ≠ j := by
        rintro rfl
        obtain rfl := Option.some.inj (hs.symm.trans hu)
        exact (Station.execute?_cases hexec).1.1 hhalt
      exact ⟨s, by rwa [List.getElem?_set_ne hij], hhalt, rfl⟩
  | @deliver i h =>
      obtain ⟨value, -, rfl⟩ := h
      rw [forward, List.getElem?_modify, List.getElem?_modify, hs]
      refine ⟨_, rfl, ?_, ?_⟩
      · split <;> split <;> exact hhalt
      · split <;> split <;> rfl

theorem Reaches.halted (h : Reaches net net') (hs : net[j]? = some s)
    (hhalt : s.machine.status = .halted) :
    ∃ t, net'[j]? = some t ∧ t.machine.status = .halted ∧ t.emitted = s.emitted := by
  induction h with
  | refl => exact ⟨s, hs, hhalt, rfl⟩
  | tail _ hstep ih =>
      obtain ⟨t, ht, hthalt, hemitted⟩ := ih
      obtain ⟨u, hu, huhalt, hemitted'⟩ := hstep.halted ht hthalt
      exact ⟨u, hu, huhalt, hemitted'.trans hemitted⟩

/-! ### Waiting makes no difference -/

/-- The network with its stations roused. -/
def roused (net : List Station) : List Station := net.map Station.roused

theorem getElem?_roused : (roused net)[i]? = net[i]?.map Station.roused := List.getElem?_map

theorem roused_modify {f : Station → Station} (hf : ∀ s, (f s).roused = f s.roused)
    (net : List Station) (i : Nat) : roused (net.modify i f) = (roused net).modify i f := by
  apply List.ext_getElem?
  intro j
  rw [getElem?_roused, List.getElem?_modify, List.getElem?_modify, getElem?_roused]
  cases net[j]? with
  | none => rfl
  | some s =>
      by_cases hij : i = j
      · simp [hij, hf]
      · simp [hij]

theorem roused_forward (net : List Station) (i : Nat) (value : Int) :
    roused (forward net i value) = forward (roused net) i value := by
  have hreceive := roused_modify (f := (·.receive [value])) fun s => Station.roused_receive [value]
  have hship := roused_modify (f := Station.ship) fun s => Station.roused_ship
  have hlength : (roused net).length = net.length := List.length_map _
  rw [forward, hreceive, hship, forward, follower_congr hlength]

theorem Step.roused (h : Step net net') : Step (roused net) (roused net') := by
  cases h with
  | @execute i h =>
      obtain ⟨s, s', hs, hexec, rfl⟩ := h
      refine .execute (i := i) ⟨s.roused, s', ?_, Station.execute?_roused.trans hexec, ?_⟩
      · rw [getElem?_roused, hs]
        rfl
      · rw [Network.roused, Network.roused, List.map_set, Station.roused_of_execute? hexec]
  | @deliver i h =>
      obtain ⟨value, ⟨s, rest, hs, hq⟩, rfl⟩ := h
      refine .deliver (i := i) ⟨value, ⟨s.roused, rest, ?_, ?_⟩, roused_forward net i value⟩
      · rw [getElem?_roused, hs]
        rfl
      · rw [← hq]
        exact congrArg Channel.queue Machine.output_roused

theorem Reaches.roused (h : Reaches net net') : Reaches (roused net) (roused net') :=
  h.lift Network.roused fun _ _ hstep => hstep.roused

/-! ### The beginning -/

/-- What a machine of a ring is loaded with: its phase, and after it the seed for the first. -/
def endowment (seed : Int) (phases : Phases) (i : Nat) : List Int :=
  phases[i]?.toList ++ if i = 0 then [seed] else []

theorem getElem?_ringMachines (image : List Int) (seed : Int) (phases : Phases) (i : Nat) :
    (ringMachines image seed phases)[i]? =
      phases[i]?.map fun _ => .load image (endowment seed phases i) false := by
  cases phases with
  | nil => rfl
  | cons first rest =>
      cases i with
      | zero => rfl
      | succ i =>
          have hget : (ringMachines image seed (first :: rest))[i + 1]? =
              rest[i]?.map fun phase => .load image [phase] false := List.getElem?_map
          rw [hget, endowment, List.getElem?_cons_succ]
          cases rest[i]? <;> simp

theorem getElem?_start (image : List Int) (seed : Int) (phases : Phases) (i : Nat) :
    (start image seed phases)[i]? = phases[i]?.map fun _ =>
      { machine := .load image (endowment seed phases i) false } := by
  rw [start, List.getElem?_map, getElem?_ringMachines, Option.map_map]
  rfl

/-- At the beginning nothing is on its way. -/
theorem conserved_start (image : List Int) (seed : Int) (phases : Phases) :
    Conserved (endowment seed phases) (roused (start image seed phases)) := by
  intro i s t hs ht
  rw [getElem?_roused, getElem?_start, Option.map_map] at hs ht
  obtain ⟨phase, -, rfl⟩ := Option.map_eq_some_iff.1 hs
  obtain ⟨phase', -, rfl⟩ := Option.map_eq_some_iff.1 ht
  rfl

end CellMachine.Network
