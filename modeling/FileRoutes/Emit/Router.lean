import FileRoutes.Emit.Module
import FileRoutes.Http.Method

/-!
# Router modules

The router of a folder imports every handler, applies the middleware of the folder, and
registers each handler at its route, behind the middleware of its own.
-/

namespace FileRoutes.Emit

/-- The registration of one handler. -/
structure Registration where
  /-- The verb. -/
  method : Http.Method
  /-- The route. -/
  route : String
  /-- The middleware before the handler, by name. -/
  middleware : List String
  /-- The identifier of the handler. -/
  identifier : String
deriving DecidableEq, Inhabited

/-- A router module. -/
structure Router where
  /-- The imports of the handlers. -/
  handlers : List Import
  /-- Where the table of middleware is imported from, if it is. -/
  tableImport : Option String
  /-- The middleware of every route, by name. -/
  folderMiddleware : List String
  /-- The registrations, in order. -/
  routes : List Registration
deriving DecidableEq, Inhabited

/-- The line of a registration. -/
def Registration.line (r : Registration) : String :=
  "router." ++ r.method.routerMethod ++ "(" ++ quoted r.route ++ ", " ++
    String.join (r.middleware.map fun name => tableEntry name ++ ", ") ++ r.identifier ++ ");"

namespace Router

/-- The names a router module declares itself. -/
def ownNames : List String := ["express", "router", "middleware"]

/-- The line that imports the table, unless there is no place to import it from. -/
def tableImportLines (r : Router) : List String :=
  match r.tableImport with
  | some path => if path = "" then [] else [tableImportLine path]
  | none => []

/-- The lines of a router module. -/
def lines (r : Router) : List String :=
  [Import.defaultLine "express" "express"] ++
    r.handlers.map (Import.line "handler") ++
    r.tableImportLines ++
    ["", "const router = express.Router();"] ++
    r.folderMiddleware.map (fun name => "router.use(" ++ tableEntry name ++ ");") ++
    r.routes.map Registration.line ++
    ["", "export default router;"]

/-- The text of a router module. -/
def render (r : Router) : String := unlines r.lines

end Router

end FileRoutes.Emit
