import Std.Time.DateTime.Timestamp
import FileRoutes.Disk
import FileRoutes.Log.Clock
import FileRoutes.Watch.Batch

/-!
# The program

The command line is read, the task carried out on a snapshot of the disk, the disk brought
to the state of the run, and the log written. Watching looks at the sources again and again,
and collects what has changed until nothing more changes for the quiet period.
-/

namespace FileRoutes.Main

open Command

/-- What the program needs to know all the time. -/
structure Context where
  /-- The variables of the environment. -/
  env : Log.Environment
  /-- What is asked for. -/
  invocation : Invocation

/-- The variables of the environment that matter. -/
def environment : IO Log.Environment := do
  let names := [Log.Settings.levelVariable, Log.Settings.formatVariable,
    Log.Settings.locationVariable, Log.Filter.filterVariable]
  let found ← names.mapM fun name => do return (name, ← IO.getEnv name)
  return found.filterMap fun (name, value) => value.map fun v => (name, v)

/-- Writes events to the log. -/
def tell (c : Context) (events : List Log.Event) : IO Unit := do
  let now ← Std.Time.Timestamp.now
  let time := Log.timeText now.toNanosecondsSinceUnixEpoch.val.toNat
  IO.eprint (written c.env c.invocation.log time events)

/-- Tells what happens while watching. -/
def tellWatching (c : Context) (level : Log.Level) (message : String) : IO Unit :=
  tell c [⟨level, Log.watchPart, message⟩]

/-- The paths that may be a config of a project. -/
def configPaths (o : GenerateOptions) : List Path := Config.fileNames.map o.projectRoot.child

/-- The paths that a run reads and writes. -/
def runPaths (o : GenerateOptions) (config : Option Config) : List Path :=
  configPaths o ++ o.outputPath :: (config.map fun config => Watch.targets config o).getD []

/-- Runs something on the disk and tells what it reports. Where the disk cannot be brought to
where the run left it, that is told too, and there is no result. -/
def perform {α : Type} (c : Context) (paths : List Path) (run : Run α) : IO (Option α) := do
  let before ← Disk.snapshot paths
  let (a, s) := run { files := before }
  let faults ← Disk.update before s.files
  tell c (s.log.map .ofDiagnostic ++ faults.map fun m => .ofDiagnostic (.error m))
  return if faults = [] then some a else none

/-- The config of the project and its file; what is wrong is told. -/
def loadConfig (c : Context) (o : GenerateOptions) : IO (Except Result (Config × Path)) := do
  let found ← perform c (configPaths o) (loadProject o.projectRoot)
  match found.getD (.error (.done .failed)) with
  | .error result =>
    tell c (events [] result)
    return .error result
  | .ok loaded => return .ok loaded

/-- Generates once with a config. -/
def generateWith (c : Context) (o : GenerateOptions) (config : Config) : IO Outcome := do
  return (← perform c (runPaths o config) (Server.generate o config)).getD .failed

/-! ### Watching -/

/-- Everything that is watched, as it is now. -/
def look (o : GenerateOptions) (config : Config) (configPath : Path) :
    IO (List (Location × Entry)) := do
  return (← Disk.snapshot (configPath :: Watch.targets config o)).entries

/-- The locations at which two states differ. -/
def changes (before after : List (Location × Entry)) : List Path :=
  let differ (l : List (Location × Entry)) (m : Location × Entry) : Bool :=
    Keyed.get? m.1 l ≠ some m.2
  (after.filter (differ before) ++ before.filter fun m => (Keyed.get? m.1 after).isNone).map
    fun m => Path.ofLocation m.1

/-- How long to wait between two looks, in milliseconds. -/
def lookMilliseconds : Nat := 100

/-- Collects changes until nothing changes for a number of looks. -/
partial def collect (look : IO (List (Location × Entry))) (quietLooks : Nat)
    (state : List (Location × Entry)) (channel : Watch.Channel) (still : Nat) :
    IO (Watch.Channel × List (Location × Entry)) := do
  if channel.queue ≠ [] ∧ quietLooks ≤ still then return (channel, state)
  IO.sleep lookMilliseconds.toUInt32
  let next ← look
  match changes state next with
  | [] => collect look quietLooks next channel (still + 1)
  | paths => collect look quietLooks next (channel.send paths) 0

/-- The config after a batch: loaded again if its file is among the changes. -/
def reloaded (c : Context) (config : Config) (configPath : Path) (batch : List Path) :
    IO Config := do
  if configPath ∉ batch then return config
  match Config.load (← Disk.snapshot [configPath]) configPath with
  | .ok config =>
    tellWatching c .info ("reloaded config " ++ configPath.text)
    return config
  | .error e =>
    tellWatching c .warn ("keeping previous config, reload failed: " ++ e.message)
    return config

/-- Generates again after each batch of changes, without end. -/
partial def watch (c : Context) (o : GenerateOptions) (quietLooks : Nat) (config : Config)
    (configPath : Path) (state : List (Location × Entry)) : IO Unit := do
  let (channel, state) ← collect (look o config configPath) quietLooks state {} 0
  match (Watch.nextBatch o.outputPath channel).1 with
  | some (.paths batch) =>
    let config ← reloaded c config configPath batch
    if (← generateWith c o config) = .failed then
      tellWatching c .warn "regeneration failed, watching for further changes"
    watch c o quietLooks config configPath (← look o config configPath)
  | _ => watch c o quietLooks config configPath state

/-- Generates, and again after each change. -/
def startWatching (c : Context) (o : GenerateOptions) (quiet : UInt64) (config : Config)
    (configPath : Path) : IO Unit := do
  if (← generateWith c o config) = .failed then
    tellWatching c .warn "initial generation failed, watching for changes"
  let fs ← Disk.snapshot (Watch.targets config o)
  for target in Watch.targets config o do
    if !fs.holds target then
      tellWatching c .warn ("not watching missing path " ++ target.text)
  tellWatching c .info "watching for changes, press Ctrl-C to stop"
  watch c o (quiet.toNat / lookMilliseconds + 1) config configPath
    (← look o config configPath)

/-! ### The command line -/

/-- How the program is called. -/
def usage : String :=
  "Usage: autoapi [--log-level <LEVEL>] [--log-format <FORMAT>] <COMMAND>\n\n" ++
  "Commands:\n" ++
  "  generate  Generate routers, the middleware table and the server entrypoint\n" ++
  "  watch     Generate, then regenerate on every change until interrupted\n\n" ++
  "Options of both commands:\n" ++
  "  -r, --root <DIR>  Project root containing autoapi.config.* (default: .)\n" ++
  "  -o, --out <DIR>   Output directory, relative to the root (default: generated)\n\n" ++
  "Option of watch:\n" ++
  "  --debounce-ms <N>  Quiet period before a burst of changes counts (default: 300)\n"

/-- Carries out what is asked for; gives the exit code. -/
def carryOut (c : Context) : IO Nat := do
  let here ← Disk.workingDirectory
  let o := c.invocation.task.options { workingDirectory := here }
  match ← loadConfig c o with
  | .error result => return result.exitCode
  | .ok (config, configPath) =>
    match c.invocation.task with
    | .generate _ _ => return (Result.done (← generateWith c o config)).exitCode
    | .watch _ _ quiet =>
      startWatching c o quiet config configPath
      return 0

end FileRoutes.Main

open FileRoutes in
/-- Runs the program. -/
def main (arguments : List String) : IO UInt32 := do
  let env ← Main.environment
  match Command.Invocation.parse env arguments with
  | .error .help =>
    IO.print Main.usage
    return 0
  | .error e =>
    IO.eprint Main.usage
    return e.exitCode.toUInt32
  | .ok invocation => return (← Main.carryOut ⟨env, invocation⟩).toUInt32
