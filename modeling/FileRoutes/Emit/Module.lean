import FileRoutes.Emit.Quoted

/-!
# Generated modules

What all generated modules have in common: a text of lines, and imports at its top. A
function is imported as the default of its module or under its own name; either way it
gets the identifier that the rest of the module uses.
-/

namespace FileRoutes.Emit

/-- The text of some lines, each one ended. -/
def unlines (lines : List String) : String := String.join (lines.map fun l => l ++ "\n")

/-- The import of one function. -/
structure Import where
  /-- The name the function goes by in the module. -/
  identifier : String
  /-- Where it comes from. -/
  path : String
  /-- Whether it is the default of its module. -/
  byDefault : Bool
deriving DecidableEq, Inhabited

namespace Import

/-- The line that imports the default of a module. -/
def defaultLine (identifier path : String) : String :=
  "import " ++ identifier ++ " from " ++ quoted path ++ ";"

/-- The line of an import; `own` is the name a function is exported under if it is not the
default. -/
def line (own : String) (i : Import) : String :=
  if i.byDefault then defaultLine i.identifier i.path
  else "import \x7b " ++ own ++ " as " ++ i.identifier ++ " \x7d from " ++ quoted i.path ++ ";"

end Import

/-- The line that imports the table of middleware. -/
def tableImportLine (path : String) : String := Import.defaultLine "middleware" path

/-- The function that the table holds under a name. -/
def tableEntry (name : String) : String := "middleware[" ++ quoted name ++ "]"

end FileRoutes.Emit
