import FileRoutes.Emit.MiddlewareTable
import FileRoutes.Emit.Router
import FileRoutes.Path.Basic
import FileRoutes.Script.Exports

/-!
# Manifests

A manifest lists the files below a folder that export a function under the name that is
looked for, in the order of their paths. An entry holds what the generated modules need to
know about its file.

## The model

* `Role` — what is looked for: handlers or middleware.
* `Manifest.Entry`, `Manifest` — a qualifying file, and all of them in order.
-/

namespace FileRoutes

/-- What a folder is scanned for. -/
inductive Role where
  /-- Functions that answer requests. -/
  | handler
  /-- Functions that run before handlers. -/
  | middleware
deriving DecidableEq, Inhabited

namespace Role

/-- The name under which a file of the role exports its function. -/
def exportName : Role → String
  | handler => "handler"
  | middleware => "middleware"

/-- The names that the module made of the files declares itself. -/
def ownNames : Role → List String
  | handler => Emit.Router.ownNames
  | middleware => Emit.MiddlewareTable.ownNames

end Role

namespace Manifest

/-- A qualifying file. -/
structure Entry where
  /-- The name of the file. -/
  name : String
  /-- The route of the file. -/
  route : String
  /-- The path of the file. -/
  sourcePath : Path
  /-- The verb. -/
  method : Http.Method
  /-- The middleware before the function, by name. -/
  middleware : List String
  /-- The identifier under which the function is imported. -/
  identifier : String
  /-- How the function is exported. -/
  style : Script.ExportStyle
deriving DecidableEq, Inhabited

namespace Entry

/-- The name of the file without its extension. -/
def stem (e : Entry) : String := (Path.splitName e.name).1

/-- Whether the function is the default of its file. -/
def byDefault (e : Entry) : Bool := e.style = .byDefault

end Entry

end Manifest

/-- The qualifying files below a folder, in order. -/
abbrev Manifest := List Manifest.Entry

end FileRoutes
