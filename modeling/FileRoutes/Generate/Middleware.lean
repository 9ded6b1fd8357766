import FileRoutes.Generate.Run
import FileRoutes.Path.Specifier

/-!
# The middleware of a project

The functions of the middleware folder go into one table, each under the stem of its file.
Of several files with one stem the first is kept. Lists of requested middleware are narrowed
to the names in the table, so that no generated module refers to a name that is not there.

## The model

* `Middleware.Mapping` — a name and the function it stands for.
* `Middleware.Collection` — the folder, the module of the table, and the mappings found by
  the last run that found any.
-/

namespace FileRoutes.Middleware

/-- A name and the function it stands for. -/
structure Mapping where
  /-- The name: the stem of the file. -/
  name : String
  /-- The identifier under which the function is imported. -/
  identifier : String
  /-- The path of the file. -/
  sourcePath : Path
  /-- Whether the function is the default of its file. -/
  byDefault : Bool
deriving DecidableEq, Inhabited

/-- The mapping of an entry. -/
def Mapping.ofEntry (e : Manifest.Entry) : Mapping := ⟨e.stem, e.identifier, e.sourcePath, e.byDefault⟩

/-- The entries whose stem is new, and those whose stem is not; `seen` are the stems before. -/
def splitNew (seen : List String) : Manifest → Manifest × Manifest
  | [] => ([], [])
  | e :: rest =>
    if e.stem ∈ seen then
      let (new, old) := splitNew seen rest
      (new, e :: old)
    else
      let (new, old) := splitNew (e.stem :: seen) rest
      (e :: new, old)

/-- The warning about an entry whose stem is not new. -/
def duplicateMessage (e : Manifest.Entry) : String :=
  "duplicate middleware name '" ++ e.stem ++ "' in " ++ e.sourcePath.text ++
    ", keeping the first definition"

/-- The middleware of a folder. -/
structure Collection where
  /-- The folder. -/
  folder : Path
  /-- The module that holds the table. -/
  modulePath : Path
  /-- The mappings. -/
  mappings : List Mapping := []
deriving DecidableEq, Inhabited

namespace Collection

/-- The names that are known. -/
def names (c : Collection) : List String := c.mappings.map Mapping.name

/-- The requested names that are known. -/
def available (c : Collection) (requested : List String) : List String :=
  requested.filter fun name => name ∈ c.names

/-- The specifier of the table in a module of a directory. -/
def specifierIn (c : Collection) (directory : Path) : String :=
  Path.specifier directory c.modulePath

/-- The import of a mapping in a module of a directory. -/
def importIn (directory : Path) (m : Mapping) : Emit.Import :=
  ⟨m.identifier, Path.specifier directory m.sourcePath, m.byDefault⟩

/-- The module of the table. -/
def table (c : Collection) : Emit.MiddlewareTable where
  imports := c.mappings.map (importIn c.modulePath.directory)
  entries := c.mappings.map fun m => ⟨m.name, m.identifier⟩

/-- The collection with the mappings of a manifest. -/
def ofManifest (c : Collection) (m : Manifest) : Collection :=
  { c with mappings := (splitNew [] m).1.map Mapping.ofEntry }

/-- Scans the folder and writes the table. Without any middleware no table is written and no
mapping is left. -/
def collect (c : Collection) : Run (Outcome × Collection) := do
  let m ← Run.scan .middleware c.folder
  if m = [] then
    Run.error ("No middleware found in folder: " ++ c.folder.text)
    return (.failed, { c with mappings := [] })
  else
    Run.report ((splitNew [] m).2.map fun e => .warning (duplicateMessage e))
    let c := c.ofManifest m
    return (← Run.writeModule c.modulePath (.table c.table), c)

end Collection

/-- The requested names that are known, of which there are none without a collection. -/
def available (known : Option Collection) (requested : List String) : List String :=
  (known.map fun c => c.available requested).getD []

/-- The specifier of the table in a module of a directory, where the module needs it. -/
def tableImport (known : Option Collection) (directory : Path) (needed : Bool) : Option String :=
  if needed then known.map fun c => c.specifierIn directory else none

end FileRoutes.Middleware
