import FileRoutes.Command.Invocation
import FileRoutes.Config.Load
import FileRoutes.Generate.Server
import FileRoutes.Log.Line

/-!
# Carrying out a command

A task starts with the config of the project: without one, or with one that cannot be
loaded, nothing is generated and nothing is changed. What happens is told by events, and the
exit code says whether the task was done.

## The model

* `Task.options` — where a task reads and writes; the root is made absolute.
* `loadProject` — the config of a project, and the file it is in.
* `generate`, `Invocation.events` — the first run of a task, and all that it tells.
-/

namespace FileRoutes

/-- The path as seen from the root: an absolute path is kept, and a relative one starts in a
directory. What says nothing is dropped, but for a slash at the end. -/
def Path.absoluteFrom (directory p : Path) : Path :=
  let inner := p.components.filter fun c => c ≠ .here ∧ c ≠ .root
  let names := Text.join "/" (inner.map Component.text)
  let start : Path :=
    if !p.isAbsolute then directory
    else if "//".toList.isPrefixOf p.text.toList ∧ !"///".toList.isPrefixOf p.text.toList then ⟨"//"⟩
    else ⟨"/"⟩
  let whole := if inner = [] then start else start.join ⟨names⟩
  if p.text.toList.getLast? = some '/' ∧ whole.text.toList.getLast? ≠ some '/' then ⟨whole.text ++ "/"⟩
  else whole

/-- The path of a location. -/
def Path.ofLocation (l : Location) : Path := ⟨"/" ++ Text.join "/" l⟩

namespace Command

/-- The root of the project of a task. -/
def Task.root : Task → Path
  | generate root _ => root
  | watch root _ _ => root

/-- The output directory of a task, if it is given. -/
def Task.out : Task → Option Path
  | generate _ out => out
  | watch _ out _ => out

/-- Where a task reads and writes. -/
def Task.options (t : Task) (fs : FileSystem) : GenerateOptions :=
  let root := Path.absoluteFrom (Path.ofLocation fs.workingDirectory) t.root
  match t.out with
  | none => { projectRoot := root }
  | some out => { projectRoot := root, outputDirectory := out }

/-- The error about a project without a config. -/
def missingConfigMessage : String :=
  "No config found, please create an autoapi.config, check the documentation for details"

/-- What comes of a task. -/
inductive Result where
  /-- It was carried out, with this outcome. -/
  | done (outcome : Outcome)
  /-- The config cannot be loaded. -/
  | broken (path : Path) (error : Config.LoadError)
deriving DecidableEq, Inhabited

/-- What is said about a config that cannot be loaded. -/
def brokenMessage (path : Path) (e : Config.LoadError) : String :=
  "failed to load " ++ path.text ++ ": " ++ e.message

/-- The config of a project and its file; a project without one is reported. -/
def loadProject (root : Path) : Run (Except Result (Config × Path)) := do
  let fs ← Run.files
  match Config.file? fs root with
  | none =>
    Run.error missingConfigMessage
    return .error (.done .failed)
  | some path =>
    match Config.load fs path with
    | .error e => return .error (.broken path e)
    | .ok config => return .ok (config, path)

/-- Generates the server of a project once. -/
def generate (t : Task) : Run Result := do
  let options := t.options (← Run.files)
  match ← loadProject options.projectRoot with
  | .error result => return result
  | .ok (config, _) => return .done (← Server.generate options config)

/-- The events that tell what happened and what came of it. -/
def events (log : List Diagnostic) : Result → List Log.Event
  | .done _ => log.map .ofDiagnostic
  | .broken path e => log.map .ofDiagnostic ++ [⟨.error, Log.mainPart, brokenMessage path e⟩]

/-- The exit code of a command line that is not carried out. -/
def UsageError.exitCode : UsageError → Nat
  | help => 0
  | _ => 2

/-- The exit code of a result. -/
def Result.exitCode : Result → Nat
  | done .succeeded => 0
  | _ => 1

/-- What is logged of a run, for a given time. -/
def written (env : Log.Environment) (settings : Log.Settings) (time : String)
    (events : List Log.Event) : String :=
  String.join ((Log.logged (.ofSettings env settings) events).map fun e =>
    e.written settings.format time)

end Command

end FileRoutes
