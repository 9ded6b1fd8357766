import FileRoutes.Identifier.Basic
import FileRoutes.Path.Basic
import FileRoutes.Route.Pattern

/-!
# Routes of source files

The route of a handler follows from where its file lies below the scanned folder: the
names on the way become segments, the extension is dropped, and a last segment `index`
stands for the directory itself. The same names, joined with `_`, are the seed of the
identifier under which the file is imported.
-/

namespace FileRoutes.Route

/-- The names of a path, the last one without its extension. -/
def sourceSegments (p : Path) : List String :=
  match p.names.reverse with
  | [] => []
  | last :: before => before.reverse ++ [(Path.splitName last).1]

/-- The segments of the route: a last segment `index` says nothing. -/
def routeSegments (p : Path) : List String :=
  let segments := sourceSegments p
  if segments.getLast? = some "index" then segments.dropLast else segments

/-- The route of the file at `p`, a path below the scanned folder. -/
def ofPath (p : Path) : String :=
  "/" ++ Text.join "/" ((routeSegments p).map segmentPattern)

/-- The identifier that the file at `p` asks for. -/
def identifierOf (p : Path) : String :=
  Identifier.sanitize (Text.join "_" (sourceSegments p))

end FileRoutes.Route
