import CellMachine.Amplifier.Search
import CellMachine.Command.Basic
import CellMachine.Image.Load
import CellMachine.Report

/-!
# The command that runs an amplifier

The program is loaded into every machine of a chain or a ring, and the signal that comes out is
printed; on request every order of the phases is tried and the best is printed with its signal.

The machines note what they do at any size here, and the notes are written down afterwards: the
first that is not written aborts the command. For machines that come to rest this is the same as
writing the notes one by one.
-/

namespace CellMachine.Command

/-- The options of the command. -/
inductive AmplifyKey where
  /-- Show debug lines. -/
  | verbose
  /-- The phases. -/
  | phases
  /-- Wire the machines as a ring. -/
  | feedback
  /-- Try every order of the phases. -/
  | search
  /-- The signal that goes in. -/
  | seed
  /-- Show how the command is used. -/
  | help
  deriving DecidableEq, Repr

/-- How the options are written. -/
def amplifySpecs : List (Options.Spec AmplifyKey) :=
  [⟨.verbose, some 'v', "--verbose", false⟩,
    ⟨.phases, some 'p', "--phases", true⟩,
    ⟨.feedback, none, "--feedback", false⟩,
    ⟨.search, none, "--search", false⟩,
    ⟨.seed, none, "--seed", true⟩,
    ⟨.help, none, "--help", false⟩]

/-- What the command was asked to do. -/
structure AmplifyOptions where
  /-- Show debug lines. -/
  verbose : Bool
  /-- The phases, in order. -/
  phases : Phases
  /-- How the machines are wired. -/
  wiring : Amplifier.Wiring
  /-- Try every order of the phases. -/
  search : Bool
  /-- The signal that goes in. -/
  seed : Int
  /-- The program file. -/
  program : FilePath
  deriving DecidableEq, Repr

/-- What the words given to the command ask for. -/
def AmplifyOptions.ofItems? (limit : DigitLimit) (items : List (Options.Item AmplifyKey)) :
    Option AmplifyOptions := do
  let program ← Options.onlyPositional? items
  let wiring : Amplifier.Wiring := if Options.hasFlag items .feedback then .ring else .chain
  let seed ←
    match Options.lastValue? items .seed with
    | none => some Amplifier.defaultSeed
    | some text => Text.Numeral.parse? text limit
  let phases ←
    match Options.lastValue? items .phases with
    | none => some wiring.defaultPhases
    | some text => Phases.parse? text limit
  return {
    verbose := Options.hasFlag items .verbose
    phases, wiring, seed
    search := Options.hasFlag items .search
    program := .ofString program }

/-- Reads the words given to the command, unless they ask how it is used. -/
def AmplifyOptions.ofWords? (limit : DigitLimit) (words : List String) : Option AmplifyOptions := do
  let items ← Options.read amplifySpecs words
  if Options.hasFlag items .help then none else ofItems? limit items

/-- Why there is no signal to print. -/
inductive AmplifyFailure where
  /-- There is no image. -/
  | load (reason : LoadError)
  /-- The amplifier gave no signal. -/
  | amplifier (failure : Amplifier.Failure)
  /-- Something that was to be noted was not written. -/
  | refused (refusal : DigitLimit.Refusal)
  deriving DecidableEq, Repr

/-- How the command ends. -/
inductive AmplifyExit where
  /-- With a signal. -/
  | ok
  /-- The machines came to rest without a signal. -/
  | pipelineError
  /-- There is no image. -/
  | loadError
  /-- A machine faulted. -/
  | fault
  deriving DecidableEq, Repr

/-- The exit code of an ending. -/
def AmplifyExit.code : AmplifyExit → Nat
  | .ok => 0
  | .pipelineError => 5
  | .loadError => 4
  | .fault => 100

/-- Every ending, success first. -/
def AmplifyExit.all : List AmplifyExit := [.ok, .pipelineError, .loadError, .fault]

/-- An order of phases on a line of its own. -/
def orderLine (order : Phases) : String := ",".intercalate (order.map toString) ++ "\n"

/-- What an amplifier gave. -/
structure Found where
  /-- The last value out. -/
  signal : Int
  /-- The order of the phases, if it was searched for. -/
  order : Option Phases
  deriving DecidableEq, Repr

namespace Found

/-- The integers that are printed. -/
def integers (found : Found) : List Int := found.signal :: found.order.getD []

/-- What is printed if all of it is written. -/
def text (found : Found) : String :=
  Report.line found.signal ++ (found.order.elim "" orderLine)

/-- Prints the signal, and then the order, until an integer is not written. -/
def print (limit : DigitLimit) (found : Found) : Printed :=
  if found.integers.all limit.writes then { text := found.text }
  else
    { text := if limit.writes found.signal then Report.line found.signal else ""
      refusal := some (.write limit) }

end Found

namespace AmplifyOptions

/-- What the amplifier gives. -/
def amplify (o : AmplifyOptions) (fuel : Nat) (image : Image) : Logged Amplifier.Failure Found := do
  if o.search then
    let (signal, order) ← Amplifier.bestOrder o.wiring fuel image o.phases o.seed
    return { signal, order := some order }
  else
    let signal ← o.wiring.signal fuel image o.phases o.seed
    return { signal, order := none }

/-- The work of the command: what is to be printed. -/
def execute (o : AmplifyOptions) (limit : DigitLimit) (fuel : Nat)
    (content : Except ReadError ByteArray) : Logged AmplifyFailure Found := do
  let image ← (Image.load limit o.program content).mapError AmplifyFailure.load
  (o.amplify fuel image).mapError AmplifyFailure.amplifier

/-- All that the command logs, given what was noted and what it says in the end. -/
def log (o : AmplifyOptions) (events : List Event) (ending : List String) : List LogLine :=
  logLines o.verbose "INTCODE AMPLIFIER" events ending

/-- How the command ends with something to print, having noted these events. -/
def report (o : AmplifyOptions) (limit : DigitLimit) (events : List Event) (found : Found) :
    Result :=
  let printed := found.print limit
  match printed.refusal with
  | some refusal => .aborted (.refused refusal) printed.text (o.log events [])
  | none => .finished AmplifyExit.ok.code printed.text (o.log events [])

/-- The command, given what reading the program file gave. -/
def result (o : AmplifyOptions) (limit : DigitLimit) (fuel : Nat)
    (content : Except ReadError ByteArray) : Result :=
  let work := (o.execute limit fuel content).within limit (.refused (.write limit))
  match work.outcome with
  | .error (.amplifier .unfinished) => .unfinished
  | .error (.refused refusal) => .aborted (.refused refusal) "" (o.log work.log [])
  | .error (.load reason) =>
    if reason.isReported then
      conclude limit (o.log work.log) AmplifyExit.loadError.code ""
        [s!"Program could not be loaded: {reason.message}"] reason.integers
    else .aborted (.load reason) "" (o.log work.log [])
  | .error (.amplifier (.error error)) =>
    conclude limit (o.log work.log) AmplifyExit.pipelineError.code ""
      [s!"Pipeline failed: {error.message}"] error.integers
  | .error (.amplifier (.fault fault)) =>
    conclude limit (o.log work.log) AmplifyExit.fault.code ""
      [s!"Amplifier halted on fault {fault.text}"] fault.integers
  | .ok found => o.report limit work.log found

end AmplifyOptions

/-- The command, given its words and what reading a program file gives. -/
def amplify (limit : DigitLimit) (fuel : Nat) (words : List String)
    (read : FilePath → Except ReadError ByteArray) : Result :=
  match Options.read amplifySpecs words with
  | none => .usageError
  | some items =>
    if Options.hasFlag items .help then .help
    else
      match AmplifyOptions.ofItems? limit items with
      | none => .usageError
      | some o => o.result limit fuel (read o.program)

end CellMachine.Command
