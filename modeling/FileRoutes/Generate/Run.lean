import FileRoutes.Emit.Generated
import FileRoutes.FileSystem.Writing
import FileRoutes.Manifest.Scan

/-!
# Runs

A run reads and changes files and reports what happens. It never fails as a whole: each
step tells by its outcome whether it did what it was asked for, and whatever went wrong has
been reported by then.

## The model

* `Run.State`, `Run` — the files, the diagnostics and the written modules, and a step that may
  change them.
* `Outcome` — whether a step did what it was asked for.
* `writeModule` — writing a generated module, with the directory it goes into.
-/

namespace FileRoutes

/-- What a run works on. -/
structure Run.State where
  /-- The files. -/
  files : FileSystem
  /-- The diagnostics so far, in order. -/
  log : List Diagnostic := []
  /-- The modules written so far, in order, each with its place. -/
  written : List (Path × Emit.Generated) := []
deriving DecidableEq, Inhabited

/-- A step of a run. -/
abbrev Run := StateM Run.State

/-- Whether a step did what it was asked for. -/
inductive Outcome where
  /-- It did. -/
  | succeeded
  /-- It did not, and the reason was reported. -/
  | failed
deriving DecidableEq, Inhabited

/-- The word for an outcome. -/
def Outcome.word : Outcome → String
  | succeeded => "succeeded"
  | failed => "failed"

namespace Run

/-- Reports some diagnostics. -/
def report (ds : List Diagnostic) : Run Unit := modify fun s => { s with log := s.log ++ ds }

/-- Reports an error. -/
def error (message : String) : Run Unit := report [.error message]

/-- Reports a warning. -/
def warning (message : String) : Run Unit := report [.warning message]

/-- Reports progress. -/
def info (message : String) : Run Unit := report [.info message]

/-- The files as they are. -/
def files : Run FileSystem := do return (← get).files

/-- Changes files. -/
def change {α : Type} (action : FileSystem.Action α) : Run (Except FileSystem.Error α) :=
  modifyGet fun s =>
    let (result, files) := (ExceptT.run action) s.files
    (result, { s with files := files })

/-- Scans a folder and reports what is said about it. -/
def scan (role : Role) (folder : Path) : Run Manifest := do
  let found := Manifest.scan (← files) role folder
  report found.diagnostics
  return found.manifest

/-- Makes a directory; a fault is reported. -/
def ensureDirectory (p : Path) : Run Outcome := do
  match ← change (FileSystem.ensureDirectory p) with
  | .ok _ => return .succeeded
  | .error e =>
    error ("Error creating the directory: " ++ p.text ++ ": " ++ e.message)
    return .failed

/-- Writes a file; a fault is reported. -/
def writeFile (p : Path) (text : String) : Run Outcome := do
  match ← change (FileSystem.writeFile p text) with
  | .ok _ => return .succeeded
  | .error e =>
    error ("Error writing the file: " ++ p.text ++ ": " ++ e.message)
    return .failed

/-- The error about a module that has no text. -/
def unrenderedMessage (p : Path) (e : Emit.RenderError) : String :=
  "Failed to render " ++ p.text ++ ": " ++ e.message

/-- Writes the text of a generated module, with the directory it goes into. -/
def writeText (p : Path) (text : String) : Run Outcome := do
  match ← ensureDirectory p.directory with
  | .failed => return .failed
  | .succeeded => writeFile p text

/-- Writes a generated module and reports its success. -/
def writeModule (p : Path) (m : Emit.Generated) : Run Outcome := do
  match m.render with
  | .error e =>
    error (unrenderedMessage p e)
    return .failed
  | .ok text =>
    match ← writeText p text with
    | .failed => return .failed
    | .succeeded =>
      modify fun s => { s with written := s.written ++ [(p, m)] }
      info (m.message p.text)
      return .succeeded

end Run

end FileRoutes
