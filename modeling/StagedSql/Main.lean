import StagedSql.Command.Outcome

/-!
The command on real files and variables. No database client is linked in, so every connection is
refused.
-/

namespace StagedSql

/-- What is found under a path. -/
def readFileState (path : String) : IO FileState := do
  try
    return .text (← IO.FS.readFile path)
  catch
    | .noFileOrDirectory .. => return .absent
    | _ => return .unreadable

/-- The variables and files of the process. -/
def processSurroundings : Surroundings IO where
  env name := IO.getEnv name
  files := readFileState
  connect url := return .error (.database s!"no connection to {url}")

end StagedSql

/-- Runs the command. -/
def main (args : List String) : IO UInt32 := do
  let outcome ← StagedSql.runCommand StagedSql.processSurroundings args
  (← IO.getStdout).putStr outcome.stdout
  (← IO.getStderr).putStr outcome.stderr
  return outcome.exit.toUInt32
