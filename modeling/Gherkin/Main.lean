import Gherkin.Command

/-
  The program: arguments, environment and file are read here, and everything else is decided by
  `Gherkin.Command`.
-/

namespace Gherkin

/-- The environment variables of the settings. -/
def readEnvironment : IO (String → Option String) := do
  let level ← IO.getEnv Settings.levelVariable
  let format ← IO.getEnv Settings.formatVariable
  return fun name =>
    if name = Settings.levelVariable then level
    else if name = Settings.formatVariable then format
    else none

/-- Reads a file. -/
def readFile (path : String) : IO (Except ReadFault (List UInt8)) := do
  try
    return .ok (← IO.FS.readBinFile path).toList
  catch
    | .noFileOrDirectory .. => return .error .notFound
    | .inappropriateType _ code _ =>
      return .error (if code = 21 then .isDirectory else .notDirectory)
    | .permissionDenied .. => return .error (.other "Permission denied (os error 13)")
    | e => return .error (.other (toString e))

end Gherkin

open Gherkin

def main (args : List String) : IO UInt32 := do
  let outcome ← match Command.plan args (← readEnvironment) with
    | .ok job => pure (job.perform (← readFile job.path))
    | .error outcome => pure outcome
  for event in outcome.events do
    IO.eprintln event.describe
  let stdout ← IO.getStdout
  stdout.write (ByteArray.mk outcome.output.toArray)
  stdout.flush
  return outcome.exit.toUInt32
