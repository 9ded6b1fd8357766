import FileRoutes.Path.Basic

/-!
# Project configuration

What a project asks for: the folders that hold handlers, where each of them is mounted,
the port, and the optional folders of middleware and of scripts to run first. A run also
needs to know where the project lies and where its output goes.
-/

namespace FileRoutes

/-- A folder of handlers and where its router is mounted. -/
structure ApiFolder where
  /-- The folder, as seen from the project root. -/
  directory : String
  /-- The path the router is mounted at. -/
  slug : String
  /-- The middleware of every route of the folder, by name. -/
  middleware : Option (List String) := none
deriving DecidableEq, Inhabited

/-- The configuration of a project. -/
structure Config where
  /-- The folders of handlers, in the order in which they are generated. -/
  apiFolders : List ApiFolder
  /-- The port the server listens on. -/
  port : UInt16
  /-- The folder of middleware. -/
  middlewareFolder : Option String := none
  /-- The middleware of every mounted router, by name. -/
  appMiddleware : Option (List String) := none
  /-- The folder of scripts that run before the server starts. -/
  preRunScripts : Option String := none
  /-- The packages that a bundler should leave outside. They are carried along. -/
  externals : Option (List String) := none
deriving DecidableEq, Inhabited

/-- Where a run reads and where it writes. -/
structure GenerateOptions where
  /-- The directory that configured folders are seen from. -/
  projectRoot : Path
  /-- The output directory, as seen from the project root. -/
  outputDirectory : Path := ⟨"generated"⟩
deriving DecidableEq, Inhabited

namespace GenerateOptions

/-- A configured folder, seen from the project root. -/
def resolve (options : GenerateOptions) (folder : String) : Path :=
  options.projectRoot.join ⟨folder⟩

/-- The output directory, seen from the project root. -/
def outputPath (options : GenerateOptions) : Path :=
  options.projectRoot.join options.outputDirectory

end GenerateOptions

end FileRoutes
