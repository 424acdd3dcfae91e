import CellMachine.Amplifier.Basic

/-!
# Feedback rings

In a ring the machines stay loaded, and the last one's output goes back to the first. The machines
take turns: each is given what the one before it has just emitted, runs until it rests, and hands
on all it emitted. A *sweep* gives every machine one turn. After a sweep

* the ring has settled if the last machine has stopped; the result is the last value it ever
  emitted;
* the ring is deadlocked if no machine completed an instruction or emitted anything.

Design points:

* A sweep is a recursion along the ring that hands the signal from machine to machine, so what
  holds after the first few turns of a sweep is a statement about a shorter ring.
* The status handed along with the signal is that of the machine that emitted it. What a ring does
  next depends on the last machine only, hence on what the sweep ends with.
-/

namespace CellMachine.Amplifier

/-- What one machine's turn comes to. -/
structure Turn where
  /-- The machine afterwards, its output taken. -/
  machine : Machine
  /-- What it emitted. -/
  signal : List Int
  /-- How it came to rest. -/
  status : Status
  /-- Did it complete an instruction or emit a value? -/
  progress : Bool

/-- A machine's turn, given a signal. -/
def turn (fuel : Nat) (m : Machine) (signal : List Int) : Logged Failure Turn := do
  let (next, status) ← runMachine fuel (m.feed signal)
  let (emitted, rested) := next.drain
  return {
    machine := rested
    signal := emitted
    status
    progress := !emitted.isEmpty || next.steps != m.steps }

/-- What the turns of some machines come to. -/
structure Sweep where
  /-- The machines afterwards, in order. -/
  machines : List Machine
  /-- What the last of them emitted. -/
  signal : List Int
  /-- How the last of them came to rest. -/
  status : Status
  /-- Did any of them complete an instruction or emit a value? -/
  progress : Bool

/-- A turn for every machine. The signal comes from a machine with the given status. -/
def sweep (fuel : Nat) : List Machine → List Int → Status → Logged Failure Sweep
  | [], signal, status => return { machines := [], signal, status, progress := false }
  | m :: rest, signal, _ => do
    let t ← turn fuel m signal
    let later ← sweep fuel rest t.signal t.status
    return { later with
      machines := t.machine :: later.machines
      progress := t.progress || later.progress }

/-- Sweeps until the ring settles or deadlocks. `final` is the last value that the last machine
ever emitted. -/
def sweeps (runFuel : Nat) : Nat → Nat → List Machine → List Int → Option Int → Logged Failure Int
  | 0, _, _, _, _ => .fail .unfinished
  | fuel + 1, round, machines, signal, final => do
    let s ← sweep runFuel machines signal .fresh
    let final := s.signal.getLast?.or final
    if s.status = .halted then
      match final with
      | none => Logged.fail (.error .haltedWithoutSignal)
      | some value =>
        Logged.note (.settled round)
        return value
    else if !s.progress then
      Logged.fail (.error (.deadlock round))
    else
      sweeps runFuel fuel (round + 1) s.machines s.signal final

/-- The machines of a ring: each holds its phase, and the first the seed after it. -/
def ringMachines (image : List Int) (seed : Int) : Phases → List Machine
  | [] => []
  | first :: rest =>
    .load image [first, seed] false :: rest.map fun phase => .load image [phase] false

/-- The last value out of a ring. -/
def ring (fuel : Nat) (image : List Int) (phases : Phases) (seed : Int) : Logged Failure Int :=
  if phases = [] then .fail (.error .emptyRing)
  else sweeps fuel fuel 0 (ringMachines image seed phases) [] none

@[simp] theorem length_ringMachines (image : List Int) (seed : Int) (phases : Phases) :
    (ringMachines image seed phases).length = phases.length := by
  cases phases <;> simp [ringMachines]

end CellMachine.Amplifier
