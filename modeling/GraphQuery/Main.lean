import GraphQuery.CommandLine

/-!
# GraphQuery.Main — the program

Runs the command line on the files and the environment of the process.
-/

namespace GraphQuery.CommandLine

/-- A fault of the file system, as the program tells it. -/
def FileFault.ofIOError : IO.Error → FileFault
  | .noFileOrDirectory .. => .missing
  | e => .other (toString e)

/-- The text of a file, or the fault that keeps it from being read. -/
def readPath (path : String) : IO (Except FileFault String) := do
  try
    let bytes ← IO.FS.readBinFile path
    return match String.fromUTF8? bytes with
      | some text => .ok text
      | none => .error .notText
  catch e => return .error (.ofIOError e)

/-- The directory of settings: an absolute one that the environment names, or one in the home. -/
def settingsDirectory : IO (Option String) := do
  match ← IO.getEnv "XDG_CONFIG_HOME" with
  | some path => if path.startsWith "/" then return some path
  | none => pure ()
  return (← IO.getEnv "HOME").map (· ++ "/.config")

/-- The surroundings of a process: its environment variables and its files. -/
def processEnvironment : IO (Environment IO) := do
  return { settings := ← IO.getEnv "KGQUERY_CONFIG"
           defaultSettings := (← settingsDirectory).map (· ++ "/kgquery/engine.toml")
           read := readPath }

end GraphQuery.CommandLine

open GraphQuery.CommandLine in
/-- Runs the program, prints what it shows and ends with its exit code. -/
def main (args : List String) : IO UInt32 := do
  let outcome ← run (← processEnvironment) args
  (← IO.getStdout).putStr outcome.output
  (← IO.getStderr).putStr outcome.complaint
  return outcome.exitCode.toUInt32
