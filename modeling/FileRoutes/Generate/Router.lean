import FileRoutes.Generate.Middleware

/-!
# The router of a folder

The handlers of a folder go into one router module, in the order of the manifest. The
middleware of the folder and of each handler is narrowed to what is known, and the table is
imported only where something of it is left.
-/

namespace FileRoutes.Router

/-- What a router is made from. -/
structure Request where
  /-- The folder of handlers. -/
  folder : Path
  /-- The module that holds the router. -/
  modulePath : Path
  /-- The middleware of every route, by name. -/
  middleware : List String
  /-- The middleware that is known. -/
  known : Option Middleware.Collection
deriving DecidableEq, Inhabited

namespace Request

/-- The registration of an entry. -/
def registration (r : Request) (e : Manifest.Entry) : Emit.Registration :=
  ⟨e.method, e.route, Middleware.available r.known e.middleware, e.identifier⟩

/-- The import of an entry. -/
def handlerImport (r : Request) (e : Manifest.Entry) : Emit.Import :=
  ⟨e.identifier, Path.specifier r.modulePath.directory e.sourcePath, e.byDefault⟩

/-- The router module of a manifest. -/
def router (r : Request) (m : Manifest) : Emit.Router :=
  let folderMiddleware := Middleware.available r.known r.middleware
  let routes := m.map r.registration
  let needed := folderMiddleware ≠ [] || routes.any fun route => route.middleware ≠ []
  { handlers := m.map r.handlerImport
    tableImport := Middleware.tableImport r.known r.modulePath.directory needed
    folderMiddleware := folderMiddleware
    routes := routes }

/-- Scans the folder and writes its router. -/
def generate (r : Request) : Run Outcome := do
  let m ← Run.scan .handler r.folder
  if m = [] then
    Run.error ("No endpoints found to map for " ++ r.folder.text)
    return .failed
  else
    Run.writeModule r.modulePath (.router (r.router m))

end Request

end FileRoutes.Router
