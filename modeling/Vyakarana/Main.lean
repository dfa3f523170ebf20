import Vyakarana.Program

/-!
# The command line tool

Asks the file system for the files that the command line names, and prints what the program
makes of them.
-/

namespace Vyakarana

/-- Why a file operation failed. -/
def FileFault.ofError : IO.Error → FileFault
  | .noFileOrDirectory .. => notFound
  | .permissionDenied .. => denied
  | .inappropriateType .. => isDirectory
  | e => other (toString e)

/-- The bytes of a file. -/
def readFile (path : Text) : IO (Except FileFault ByteArray) := do
  try
    return .ok (← IO.FS.readBinFile (String.ofList path))
  catch e => return .error (.ofError e)

/-- Append a text to a file, which is created if it is not there. -/
def appendFile (path text : Text) : IO (Except FileFault Unit) := do
  try
    let file ← IO.FS.Handle.mk (String.ofList path) .append
    file.putStr (String.ofList text)
    return .ok ()
  catch e => return .error (.ofError e)

/-- The answer for the one path that was looked at, and none for any other. -/
def answerFor {α : Type} (path : Text) (answer : Except FileFault α) : Text → Except FileFault α :=
  fun q => if q = path then answer else .error .notFound

/-- The files that a command line names. The log file is opened before the configuration is
read. -/
def filesOf (g : CommandLine.Globals) : IO Files := do
  let append ← match g.logFile with
    | some path => pure (answerFor path (← appendFile path []))
    | none => pure fun _ => .error .notFound
  let read ← match g.config with
    | some path => pure (answerFor path (← readFile path))
    | none => pure fun _ => .error .notFound
  return { read, append }

/-- Write the log of a command line to its file or to the error stream. -/
def writeLog (g : CommandLine.Globals) (log : Text) : IO Unit := do
  match g.logFile with
  | some path => discard (appendFile path log)
  | none => (← IO.getStderr).putStr (String.ofList log)

/-- Print how the program ends. -/
def finish (r : Program.Result) : IO UInt32 := do
  (← IO.getStdout).putStr (String.ofList r.stdout)
  (← IO.getStderr).putStr (String.ofList r.stderr)
  return r.code.toUInt32

/-- Carry out a command line. -/
def carryOut (args : List Text) : IO UInt32 := do
  match CommandLine.parse args with
  | .error fault => finish (Program.usageResult fault)
  | .ok inv =>
    let files ← filesOf inv.globals
    writeLog inv.globals (Program.log files inv (← (← IO.getStderr).isTty))
    finish (Program.resultOf files inv)

end Vyakarana

/-- Carry out the command line of the process. -/
def main (args : List String) : IO UInt32 := Vyakarana.carryOut (args.map String.toList)
