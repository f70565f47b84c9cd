/-
The command.

All that is done here is to look at the surroundings, to read the file and to write
what the run leaves.
-/
import RollCall.Command.Run

namespace RollCall.Command

/-- Why a file could not be read. -/
def FileError.ofError : IO.Error → FileError
  | .noFileOrDirectory .. => .missing
  | .inappropriateType .. => .isDirectory
  | e => .other (toString e)

/-- What reading a file brings. -/
def readFile (path : String) : IO (Except FileError (List UInt8)) := do
  try
    return .ok (← IO.FS.readBinFile path).toList
  catch e =>
    return .error (FileError.ofError e)

/-- The variables that the command looks at. -/
def surroundings : IO Surroundings := do
  let encoding ← IO.getEnv "MSTATQ_ENCODING"
  let format ← IO.getEnv "MSTATQ_FORMAT"
  let logLevel ← IO.getEnv "RUST_LOG"
  return { encoding, format, logLevel }

/-- Writes what a run leaves. -/
def write (o : Outcome) : IO UInt32 := do
  (← IO.getStderr).putStr o.noteText
  (← IO.getStdout).putStr o.output
  return o.ending.exitCode.toUInt32

end RollCall.Command

/-- Carries out a command line. -/
def main (words : List String) : IO UInt32 := do
  match RollCall.Command.start words (← RollCall.Command.surroundings) with
  | .error outcome => RollCall.Command.write outcome
  | .ok job => RollCall.Command.write (job.finish (← RollCall.Command.readFile job.options.file))
