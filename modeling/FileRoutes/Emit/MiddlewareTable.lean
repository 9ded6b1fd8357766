import FileRoutes.Emit.Module

/-!
# The middleware table

One module maps the names of all middleware to the functions, so that routers refer to
middleware by name alone.
-/

namespace FileRoutes.Emit

/-- A name and the identifier of its function. -/
structure TableEntry where
  /-- The name. -/
  name : String
  /-- The identifier of the function. -/
  identifier : String
deriving DecidableEq, Inhabited

/-- The module that holds the table. -/
structure MiddlewareTable where
  /-- The imports of the functions. -/
  imports : List Import
  /-- The entries, in order. -/
  entries : List TableEntry
deriving DecidableEq, Inhabited

/-- The line of an entry, without the comma behind it. -/
def TableEntry.line (e : TableEntry) : String := "  " ++ quoted e.name ++ ": " ++ e.identifier

/-- The lines of the entries, a comma behind all but the last. -/
def entryLines : List TableEntry → List String
  | [] => []
  | [e] => [e.line]
  | e :: f :: rest => (e.line ++ ",") :: entryLines (f :: rest)

namespace MiddlewareTable

/-- The names the module declares itself. -/
def ownNames : List String := ["middleware"]

/-- The lines of the module. -/
def lines (t : MiddlewareTable) : List String :=
  t.imports.map (Import.line "middleware") ++
    ["", "const middleware = \x7b"] ++
    entryLines t.entries ++
    ["\x7d;", "", "export default middleware;"]

/-- The text of the module. -/
def render (t : MiddlewareTable) : String := unlines t.lines

end MiddlewareTable

end FileRoutes.Emit
