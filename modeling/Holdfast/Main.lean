import Holdfast.Cli

/-!
# The command line

Reads the files and the variables that a run depends on, and writes its outcome.
-/

namespace Holdfast.Cli

/-- The names of the variables that a run may depend on. -/
def variableNames : List String :=
  Settings.pathVariable ::
    Wire.settingsFields.flatMap fun field =>
      ["BACKUP__" ++ field.toUpper, "backup__" ++ field]

/-- The text of a file, if it can be read. -/
def readText (path : String) : IO (Option String) := do
  try
    return some (← IO.FS.readFile path)
  catch _ => return none

/-- Gather what a run depends on. -/
def gather (args : List String) : IO Surroundings := do
  let environment ← variableNames.filterMapM fun name => do
    return (← IO.getEnv name).map (name, ·)
  let texts ← (wanted environment args).filterMapM fun path => do
    return (← readText path).map (path, ·)
  let folder ← IO.currentDir
  return { file := fun path => texts.lookup path, folder := folder.toString, environment }

end Holdfast.Cli

/-- The validator of settings. -/
def main (args : List String) : IO UInt32 := do
  let outcome := Holdfast.Cli.run (← Holdfast.Cli.gather args) args
  (← IO.getStdout).putStr outcome.output
  (← IO.getStderr).putStr outcome.errors
  return outcome.code.toUInt32
