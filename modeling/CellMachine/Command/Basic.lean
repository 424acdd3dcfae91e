import CellMachine.Command.Options
import CellMachine.Image.Load

/-!
# How commands end

A command logs lines to standard error, prints to standard output and ends with an exit code. Some
endings are apart from this: it was asked for help, the words given to it made no sense, or it was
aborted, with what it had printed and logged by then, because there is no image for a reason that
commands do not report or because an integer could not be written.
-/

namespace CellMachine.Command

/-- What the system that a command runs on allows. -/
structure Limits where
  /-- How many digits an integer may have to be read or written. -/
  digits : DigitLimit := .usual
  /-- How many cells there is room for behind an image, at once. No system has a fixed number: the
  default is only one to run with. -/
  room : Nat := 0x100000000
  deriving DecidableEq, Repr

/-- Why a command ended although it had not come to an end of its own. -/
inductive Abort where
  /-- There is no image, for a reason that is not reported. -/
  | load (reason : LoadError)
  /-- An integer was not written. -/
  | refused (refusal : DigitLimit.Refusal)
  deriving DecidableEq, Repr

/-- The wording of a reason to abort. -/
def Abort.message : Abort → String
  | .load reason => reason.message
  | .refused refusal => refusal.message

/-- How a command ended. -/
inductive Result where
  /-- With an exit code, having printed and logged. -/
  | finished (code : Nat) (stdout : String) (log : List LogLine)
  /-- It was asked how it is used. -/
  | help
  /-- The command was given words that make no sense. -/
  | usageError
  /-- It was aborted, having printed and logged. -/
  | aborted (reason : Abort) (stdout : String) (log : List LogLine)
  /-- The machines did not come to rest within their fuel. -/
  | unfinished
  deriving DecidableEq, Repr

/-- The exit code of a command that was asked how it is used. -/
def helpCode : Nat := 0

/-- The exit code of a command that was given words that make no sense. -/
def usageCode : Nat := 2

/-- The exit code of a command that was aborted. -/
def abortCode : Nat := 1

/-- The fuel of a command's machines. -/
def fuel : Nat := 0x4000000000000000

/-- A log line with its level and the name of the log in front. -/
def lineText (line : LogLine) : String := s!"{line.level.label}:root:{line.text}"

/-- Is a line shown? Debug lines are shown on request only. -/
def isShown (verbose : Bool) (line : LogLine) : Bool := verbose || line.level == .info

/-- The lines that a command logs: its banner, what was noted, and how it ended. -/
def logLines (verbose : Bool) (banner : String) (events : List Event) (ending : List String) :
    List LogLine :=
  (⟨.info, banner⟩ :: events.map Event.line ++ ending.map (LogLine.mk .info)).filter
    (isShown verbose)

/-- Ends with an exit code, unless the integers in what is to be logged last are not written. -/
def conclude (limit : DigitLimit) (log : List String → List LogLine) (code : Nat)
    (stdout : String) (ending : List String) (integers : List Int) : Result :=
  if integers.all limit.writes then .finished code stdout (log ending)
  else .aborted (.refused (.write limit)) stdout (log [])

end CellMachine.Command
