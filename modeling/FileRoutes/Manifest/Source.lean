import FileRoutes.Config.Fields
import FileRoutes.Manifest.Basic
import FileRoutes.Route.Source
import FileRoutes.Script.Source
import FileRoutes.Value.Shaped

/-!
# Inspecting a source

What one source contributes to a manifest. A source that exports no function of the role
says nothing; one that does is an entry, whatever is wrong with its settings: settings that
cannot be used are replaced as a whole by the defaults, and a warning says so.
-/

namespace FileRoutes.Manifest

/-- What a file comes to. -/
inductive Verdict where
  /-- The file is none of those looked for. -/
  | passed
  /-- The file cannot be judged; the message says why. -/
  | fault (message : String)
  /-- The file is an entry; a warning tells that its settings were not used. -/
  | entry (entry : Entry) (warning : Option String)
deriving DecidableEq, Inhabited

/-- The verb and the middleware of a handler. -/
structure Settings where
  /-- The verb. -/
  method : Http.Method := .get
  /-- The middleware, by name. -/
  middleware : List String := []
deriving DecidableEq, Inhabited

/-- The settings that a value denotes, or what is wrong with it. -/
def Settings.ofValue (v : Value) : Except String Settings :=
  match (HandlerSettings.read : Value.Reader HandlerSettings) v with
  | .error e => .error e.message
  | .ok given =>
    let middleware := given.middleware.getD []
    match given.method with
    | none => .ok { middleware := middleware }
    | some verb =>
      match Http.Method.parse? verb with
      | some method => .ok ⟨method, middleware⟩
      | none => .error (Http.Method.unknownMessage verb)

/-- The settings that the config of a source denotes, or what is wrong with it. -/
def Settings.ofConfig (source : String) :
    Option (Except Script.EvalError Value) → Except String Settings
  | none => .ok {}
  | some (.error e) => .error (e.message source.toList)
  | some (.ok v) => ofValue v

/-- The warning about settings that are not used. -/
def unusedSettings (path : Path) (cause : String) : String :=
  "failed to evaluate config in " ++ path.text ++ ", using endpoint defaults: " ++ cause

/-- The entry of a file with its settings. Its identifier is the one it asks for. -/
def entryOf (path relative : Path) (style : Script.ExportStyle) (s : Settings) : Entry where
  name := path.fileName?.getD ""
  route := Route.ofPath relative
  sourcePath := path
  method := s.method
  middleware := s.middleware
  identifier := Route.identifierOf relative
  style := style

/-- What a module comes to; `relative` leads from the scanned folder to its file. -/
def inspectModule (role : Role) (path relative : Path) (source : String) (m : Script.Module) :
    Verdict :=
  match m.functionStyle? role.exportName with
  | none => .passed
  | some style =>
    match Settings.ofConfig source m.config? with
    | .ok s => .entry (entryOf path relative style s) none
    | .error cause => .entry (entryOf path relative style {}) (some (unusedSettings path cause))

/-- What a source comes to. -/
def inspectSource (role : Role) (path relative : Path) (language : Script.Language)
    (source : String) : Verdict :=
  match language.parse? source with
  | none => .fault ("Failed to parse " ++ path.text ++ ": " ++ Script.syntaxError)
  | some m => inspectModule role path relative source m

end FileRoutes.Manifest
