import CellMachine.Command.Amplify
import CellMachine.Command.Run

/-!
# The program

`run WORDS` and `amplify WORDS` are the two commands. This module only reads the program file,
prints what a command prints, and ends with its exit code.
-/

namespace CellMachine.Main

/-- The system's number for an error; some calls report it negated, in 32 bits. -/
def errorNumber (code : UInt32) : Nat :=
  if code.toNat < 0x80000000 then code.toNat else 0x100000000 - code.toNat

/-- The reason behind a refusal of the system. -/
def reasonOf : IO.Error → ReadError
  | .noFileOrDirectory .. => .notFound
  | .inappropriateType _ code details =>
    match errorNumber code with
    | 20 => .notDirectory
    | 21 => .isDirectory
    | number => .other number details
  | .permissionDenied _ code details => .other (errorNumber code) details
  | .invalidArgument _ code details =>
    match errorNumber code with
    | 36 => .nameTooLong
    | number => .other number details
  | error => .other 5 (toString error)

/-- Reads a program file. -/
def readFile (path : FilePath) : IO (Except ReadError ByteArray) := do
  try
    return .ok (← IO.FS.readBinFile path.text)
  catch error =>
    return .error (reasonOf error)

/-- Writes the lines of a log. -/
def writeLog (log : List LogLine) : IO Unit := do
  for line in log do
    IO.eprintln (Command.lineText line)

/-- Prints what a command printed and logged; the exit code. -/
def finish : Command.Result → IO UInt32
  | .finished code stdout log => do
    writeLog log
    IO.print stdout
    return code.toUInt32
  | .help => do
    IO.println usage
    return Command.helpCode.toUInt32
  | .usageError => do
    IO.eprintln usage
    return Command.usageCode.toUInt32
  | .aborted reason stdout log => do
    writeLog log
    IO.print stdout
    IO.eprintln reason.message
    return Command.abortCode.toUInt32
  | .unfinished => do
    IO.eprintln "The machines did not come to rest"
    return Command.abortCode.toUInt32
where
  /-- How the commands are used. -/
  usage : String := "Usage: (run | amplify) [OPTIONS] PROGRAM"

/-- The command for a list of words. A file is read only if the words name one. -/
def dispatch (limits : Command.Limits) : List String → IO Command.Result
  | "run" :: words => do
    match Command.RunOptions.ofWords? limits.digits words with
    | none => return Command.run limits Command.fuel words fun _ => .error .notFound
    | some o => return o.result limits Command.fuel (← readFile o.program)
  | "amplify" :: words => do
    match Command.AmplifyOptions.ofWords? limits.digits words with
    | none => return Command.amplify limits.digits Command.fuel words fun _ => .error .notFound
    | some o => return o.result limits.digits Command.fuel (← readFile o.program)
  | _ => return .usageError

end CellMachine.Main

/-- Runs the command that the words name. -/
def main (words : List String) : IO UInt32 := do
  CellMachine.Main.finish (← CellMachine.Main.dispatch {} words)
