import FileRoutes.Emit.Entrypoint
import FileRoutes.Emit.MiddlewareTable
import FileRoutes.Emit.Router

/-!
# What is generated

A run writes modules of three kinds. What they have in common is that each has a text, which
cannot always be written, and that its place is told once it has been written.
-/

namespace FileRoutes.Emit

/-- A generated module. -/
inductive Generated where
  /-- The router of a folder. -/
  | router (r : Router)
  /-- The middleware table. -/
  | table (t : MiddlewareTable)
  /-- The entrypoint. -/
  | entrypoint (e : Entrypoint)
deriving DecidableEq, Inhabited

namespace Generated

/-- The text of a module. -/
def render : Generated → Except RenderError String
  | router r => .ok r.render
  | table t => .ok t.render
  | entrypoint e => e.render

/-- What is said about a module that has been written to a place. -/
def message (place : String) : Generated → String
  | router _ => "generated endpoints: " ++ place
  | table _ => "middleware aggregation created at " ++ place
  | entrypoint _ => "generated server entrypoint: " ++ place

end Generated

end FileRoutes.Emit
