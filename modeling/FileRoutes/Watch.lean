import FileRoutes.Config.Basic
import FileRoutes.Path.Basic

/-!
# Watching the sources

A project is generated again when something below its source folders changes. Changes below
the output directory never matter, since a run makes them itself.

## The model

* `ChangeKind` and `isRelevant` — which events can change the generated output.
* `targets` — the folders whose contents feed a run.
* `matters` — whether a change lies outside the output directory.
-/

namespace FileRoutes.Watch

/-- What happened to a watched path. -/
inductive ChangeKind where
  /-- Something of unknown kind. -/
  | any
  /-- The path was read or opened. -/
  | access
  /-- The path came into being. -/
  | create
  /-- Its data, metadata or name changed. -/
  | modify
  /-- The path is gone. -/
  | remove
  /-- Something of another kind. -/
  | other
deriving DecidableEq, Inhabited

namespace ChangeKind

/-- The word for a kind. -/
def word : ChangeKind → String
  | any => "any"
  | access => "access"
  | create => "create"
  | modify => "modify"
  | remove => "remove"
  | other => "other"

/-- The kind that a word stands for; what follows a dot tells more than matters here. -/
def ofWord? (s : String) : Option ChangeKind :=
  [any, access, create, modify, remove, other].find? fun k =>
    some k.word == (Text.split '.' s).head?

/-- Whether a change of this kind can change the generated output. -/
def isRelevant : ChangeKind → Bool
  | create | modify | remove => true
  | _ => false

end ChangeKind

/-- The folders whose contents feed a run, as the run resolves them. -/
def targets (config : Config) (options : GenerateOptions) : List Path :=
  config.apiFolders.map (fun folder => options.resolve folder.directory) ++
    (config.middlewareFolder.toList ++ config.preRunScripts.toList).map options.resolve

/-- Whether a change lies outside the ignored directory. -/
def matters (ignored : Path) (p : Path) : Bool := !p.startsWith ignored

end FileRoutes.Watch
