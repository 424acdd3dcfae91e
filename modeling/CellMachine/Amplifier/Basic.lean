import CellMachine.Amplifier.Phases
import CellMachine.Machine.Run

/-!
# Amplifiers

An amplifier is a row of machines loaded with one program, each tuned by a phase. A signal goes in,
each machine turns what reaches it into output for the next, and the last value out is the result.
This module holds the ways in which an amplifier fails.
-/

namespace CellMachine.Amplifier

/-- The signal that goes in when none is given. -/
def defaultSeed : Int := 0

/-- Why an amplifier gives no signal although no machine faulted. -/
inductive Error where
  /-- A chain of no stages. -/
  | emptyChain
  /-- A stage of a chain waits for input that nobody will give. -/
  | waiting (stage : Nat) (phase : Int)
  /-- A stage of a chain stopped without output. -/
  | silent (stage : Nat) (phase : Int)
  /-- A ring of no stages. -/
  | emptyRing
  /-- The last machine of a ring stopped, having emitted nothing. -/
  | haltedWithoutSignal
  /-- A full round in which no machine of a ring did anything. -/
  | deadlock (round : Nat)
  /-- A search among no phases. -/
  | nothingToTry
  deriving DecidableEq, Repr

/-- The wording of an error. -/
def Error.message : Error → String
  | .emptyChain => "Amplifier chain needs at least one phase"
  | .waiting stage phase => s!"Stage {stage} (phase {phase}) is waiting for input"
  | .silent stage phase => s!"Stage {stage} (phase {phase}) produced no output"
  | .emptyRing => "Feedback ring needs at least one phase"
  | .haltedWithoutSignal => "Feedback ring halted without a signal"
  | .deadlock round => s!"Feedback ring deadlocked in round {round}"
  | .nothingToTry => "No phases to try"

/-- The integers in the wording of an error, counts apart. -/
def Error.integers : Error → List Int
  | .waiting _ phase | .silent _ phase => [phase]
  | .emptyChain | .emptyRing | .haltedWithoutSignal | .deadlock _ | .nothingToTry => []

/-- Why an amplifier gives no signal. -/
inductive Failure where
  /-- A machine faulted. -/
  | fault (fault : Fault)
  /-- The machines came to rest without a signal. -/
  | error (error : Error)
  /-- The fuel was spent before the machines came to rest. -/
  | unfinished
  deriving DecidableEq, Repr

/-- Runs a machine within an amplifier: the machine at rest and its status. -/
def runMachine (fuel : Nat) (m : Machine) : Logged Failure (Machine × Status) :=
  match m.run fuel with
  | none => .fail .unfinished
  | some run => ⟨run.log, (run.outcome.map (run.machine, ·)).mapError .fault⟩

end CellMachine.Amplifier
