import FileRoutes.Emit.Module
import FileRoutes.Decimal.Digits
import FileRoutes.Text.Split

/-!
# The entrypoint

The entrypoint runs the scripts that come first, mounts every router at its slug and
listens. Middleware of the whole application is taken from the table by name each time a
router is mounted; without a place to import the table from it cannot be written.
-/

namespace FileRoutes.Emit

/-- A router and where it is mounted. -/
structure Mount where
  /-- The identifier of the router. -/
  identifier : String
  /-- Where it is imported from. -/
  path : String
  /-- The path it is mounted at. -/
  slug : String
deriving DecidableEq, Inhabited

/-- The module the server is started from. -/
structure Entrypoint where
  /-- The scripts that run first. -/
  preRunScripts : List String
  /-- The routers, in order. -/
  routers : List Mount
  /-- Where the table of middleware is imported from, if it is. -/
  tableImport : Option String
  /-- The middleware of every router, by name. -/
  appMiddleware : List String
  /-- The port. -/
  port : UInt16
deriving DecidableEq, Inhabited

/-- Why a module cannot be written. -/
inductive RenderError where
  /-- Middleware is used and the table is imported from nowhere. -/
  | noTableImport
deriving DecidableEq, Inhabited

/-- What is said about a module that cannot be written. -/
def RenderError.message : RenderError → String
  | noTableImport =>
    "failed to render template index.ts: invalid operation: value is not a string (in index.ts:9)"

namespace Entrypoint

/-- The names the entrypoint declares itself and routers must not take. -/
def ownNames : List String := ["app", "express", "middleware"]

/-- What stands between the slug and the router where the application has middleware. -/
def mountedMiddleware (e : Entrypoint) : String :=
  if e.appMiddleware = [] then "" else "appMiddleware.map(k => middleware[k]), "

/-- The line that mounts a router. -/
def mountLine (e : Entrypoint) (m : Mount) : String :=
  "app.use(" ++ quoted m.slug ++ ", " ++ e.mountedMiddleware ++ m.identifier ++ ");"

/-- The line that names the middleware of the application, if it has any. -/
def appMiddlewareLines (e : Entrypoint) : List String :=
  if e.appMiddleware = [] then []
  else ["const appMiddleware = [" ++ Text.join ", " (e.appMiddleware.map quoted) ++ "];"]

/-- The line that imports the table of middleware where it is used. -/
def tableImportLines (e : Entrypoint) : Except RenderError (List String) :=
  if e.appMiddleware = [] then .ok []
  else match e.tableImport with
    | some path => .ok [tableImportLine path]
    | none => .error .noTableImport

/-- The lines of the entrypoint; `imports` are those of the table. -/
def linesWith (e : Entrypoint) (imports : List String) : List String :=
  let port := Decimal.spelled e.port.toNat
  e.preRunScripts.map (fun path => "import " ++ quoted path ++ ";") ++
    [Import.defaultLine "express" "express"] ++
    e.routers.map (fun m => Import.defaultLine m.identifier m.path) ++
    imports ++
    ["", "const app = express();"] ++
    e.appMiddlewareLines ++
    [""] ++
    e.routers.map e.mountLine ++
    ["", "app.listen(" ++ port ++ ", () => \x7b",
      "  console.log('Server listening on port " ++ port ++ "');", "\x7d);"]

/-- The text of the entrypoint. -/
def render (e : Entrypoint) : Except RenderError String := do
  return unlines (e.linesWith (← e.tableImportLines))

end Entrypoint

end FileRoutes.Emit
