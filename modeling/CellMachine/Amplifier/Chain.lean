import CellMachine.Amplifier.Basic

/-!
# Chains

In a chain each stage is a fresh machine. It is given its phase and then all that the stage before
it emitted, and it has to stop, having emitted something. The seed stands for the output of a stage
before the first.
-/

namespace CellMachine.Amplifier

/-- What a stage emits, given what reaches it. -/
def stage (fuel : Nat) (image : List Int) (index : Nat) (phase : Int) (signal : List Int) :
    Logged Failure (List Int) := do
  let (machine, status) ← runMachine fuel (.load image (phase :: signal) false)
  if status ≠ .halted then
    Logged.fail (.error (.waiting index phase))
  else if machine.drain.1 = [] then
    Logged.fail (.error (.silent index phase))
  else
    return machine.drain.1

/-- What the stages from a given one on make of a signal. -/
def chainFrom (fuel : Nat) (image : List Int) (index : Nat) (signal : List Int) :
    Phases → Logged Failure (List Int)
  | [] => pure signal
  | phase :: phases => do
    let signal ← stage fuel image index phase signal
    chainFrom fuel image (index + 1) signal phases

/-- The last value out of a chain. -/
def chain (fuel : Nat) (image : List Int) (phases : Phases) (seed : Int) : Logged Failure Int := do
  if phases = [] then
    Logged.fail (.error .emptyChain)
  else
    let signal ← chainFrom fuel image 0 [seed] phases
    return signal.getLastD seed

end CellMachine.Amplifier
