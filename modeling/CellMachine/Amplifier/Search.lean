import CellMachine.Amplifier.Chain
import CellMachine.Amplifier.Orders
import CellMachine.Amplifier.Ring

/-!
# The best order of phases

Every order of the phases is tried, in the order of `orders`. The greatest signal wins, of equal
ones the first. A failure ends the search.

What an amplifier notes is data, and its signals are of any size. Under a digit limit the command
that asks for them has to write both (`AmplifyOptions.result`).
-/

namespace CellMachine.Amplifier

/-- How the machines are wired. -/
inductive Wiring where
  /-- One after another. -/
  | chain
  /-- The last feeds the first. -/
  | ring
  deriving DecidableEq, Repr

/-- The last value out of an amplifier. -/
def Wiring.signal (wiring : Wiring) (fuel : Nat) (image : List Int) (phases : Phases) (seed : Int) :
    Logged Failure Int :=
  match wiring with
  | .chain => Amplifier.chain fuel image phases seed
  | .ring => Amplifier.ring fuel image phases seed

/-- The phases used when none are given. -/
def Wiring.defaultPhases : Wiring → Phases
  | .chain => .serial
  | .ring => .feedback

/-- The better of the best so far and another signal with its order. -/
def better (best : Option (Int × Phases)) (signal : Int) (order : Phases) : Option (Int × Phases) :=
  match best with
  | none => some (signal, order)
  | some (top, first) => if signal > top then some (signal, order) else some (top, first)

/-- Tries one order. -/
def tryOrder (wiring : Wiring) (fuel : Nat) (image : List Int) (seed : Int)
    (best : Option (Int × Phases)) (order : Phases) : Logged Failure (Option (Int × Phases)) := do
  let signal ← wiring.signal fuel image order seed
  Logged.note (.tried order signal)
  return better best signal order

/-- The greatest signal and the first order that gives it. -/
def bestOrder (wiring : Wiring) (fuel : Nat) (image : List Int) (phases : Phases) (seed : Int) :
    Logged Failure (Int × Phases) := do
  if phases = [] then
    Logged.fail (.error .nothingToTry)
  else
    match ← foldOrdersM (tryOrder wiring fuel image seed) none phases with
    | some best => return best
    | none => Logged.fail (.error .nothingToTry)

end CellMachine.Amplifier
