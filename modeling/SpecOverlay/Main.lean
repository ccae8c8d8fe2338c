import SpecOverlay.CommandLine

/-!
# The program

The outermost layer: files, the standard streams and the environment.  Everything
else is decided in `CommandLine.run`.
-/

namespace SpecOverlay

/-- The text of a file, if it can be read as text. -/
def readTextFile (path : String) : IO (Option String) := do
  try
    return some (← IO.FS.readFile path)
  catch _ =>
    return none

/-- Where the user keeps settings: in the directory that the environment names, if
its name is absolute, else below the home directory. -/
def userConfigPath : IO (Option String) := do
  let file (dir : String) := dir ++ "/rhythm/rhythm.toml"
  let home := (← IO.getEnv "HOME").map fun dir => file (dir ++ "/.config")
  match ← IO.getEnv "XDG_CONFIG_HOME" with
  | some dir => return if dir.startsWith "/" then some (file dir) else home
  | none => return home

/-- The world as the program finds it. -/
def systemHost : CommandLine.Host IO where
  fileExists path := do
    try
      discard (IO.FS.Handle.mk path .read)
      return true
    catch _ =>
      return false
  fileText := readTextFile
  inputText := do
    try
      return some (← (← IO.getStdin).readToEnd)
    catch _ =>
      return none
  userConfig := userConfigPath

end SpecOverlay

/-- Runs the command line and ends with its exit code. -/
def main (arguments : List String) : IO UInt32 := do
  let outcome ← SpecOverlay.CommandLine.run SpecOverlay.systemHost arguments
  (← IO.getStdout).putStr outcome.output
  (← IO.getStderr).putStr outcome.errors
  return UInt32.ofNat outcome.exitCode
