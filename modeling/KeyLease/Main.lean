import KeyLease.CommandLine.Program

set_option autoImplicit false

/-!
# The program

What a run of the command line needs of the system around it: the environment, the file that the
line names as its configuration, and the time that a lock is held. Everything else is
`CommandLine.run`. The program opens no links of its own, so to it every server is out of reach.
-/

namespace KeyLease.CommandLine

/-- What is printed to whoever asks for help or could use some. -/
def helpText : String :=
  "Takes and gives back named locks, and admits keys once per window.\n\n"
    ++ "Options, before the command:\n"
    ++ String.join (settings.map fun s => "  --" ++ s.name ++ " VALUE  (" ++ s.envName ++ ")\n")
    ++ "\nCommands:\n"
    ++ String.join (Verb.all.map fun v =>
      "  " ++ v.word ++ (if v.level.takesKey then " KEY" else "")
        ++ String.join (v.level.options.map fun o => " [--" ++ o.1 ++ " VALUE]") ++ "\n")

/-- The variables of the environment that stand for settings. -/
def environment : IO (List (String × String)) :=
  settings.filterMapM fun s => return (← IO.getEnv s.envName).map (s.envName, ·)

/-- Reads one file of the system. -/
def readFile (path : String) : IO (Except ReadFault ByteArray) := do
  try
    return .ok (← IO.FS.readBinFile path)
  catch
    | .noFileOrDirectory .. => return .error .notFound
    | .inappropriateType .. => return .error .isFolder
    | _ => return .error .badPath

/-- The files of the system, as far as a command line asks for them. -/
def filesFor (env : List (String × String)) (words : List String) : IO Files := do
  match (Invocation.read env words).toOption.bind (·.configPath) with
  | some path =>
      let bytes ← readFile path
      return fun _ => bytes
  | none => return fun _ => .error .notFound

/-- Lets as much time pass as has passed on the clock of a store. -/
def keepPace : Option Backend → IO Unit
  | some (.memory store) => do
      let millis := Duration.timerMillis ⟨store.now⟩
      let day := 86400000
      for _ in [0:millis / day] do
        IO.sleep day.toUInt32
      IO.sleep (millis % day).toUInt32
  | _ => return ()

end KeyLease.CommandLine

open KeyLease.CommandLine in
/-- Runs one command line and answers its exit status. -/
def main (words : List String) : IO UInt32 := do
  let env ← environment
  let files ← filesFor env words
  let (ending, store) := run env files { reachable := false } words .never
  keepPace store
  IO.print (ending.output helpText)
  IO.eprint (ending.complaint helpText)
  return ending.status.toUInt32
