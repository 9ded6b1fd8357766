import FileRoutes.Generate.Router

/-!
# The server of a project

A run makes the middleware table, one router for each configured folder, and the entrypoint
that mounts them. A folder without a router is left out, and without middleware everything
goes on with none; the run as a whole fails only where no entrypoint can be written.

## The model

* `modulePaths` — where the routers go: below the output directory, each at a place of its
  own.
* `Mounted`, `mount` — the routers of a run; a later router takes the place of an earlier one
  with the same slug.
* `Server.generate` — the run.
-/

namespace FileRoutes.Server

/-- The file of the middleware table. -/
def tableFile : String := "middleware.ts"

/-- The file of the entrypoint. -/
def entrypointFile : String := "index.ts"

/-! ### Places of routers -/

/-- The name of a router without a name in its path. -/
def defaultStem : String := "api"

/-- The place of the router of a folder, without its extension. -/
def moduleStem (folder : String) : String :=
  match Path.names ⟨folder⟩ with
  | [] => defaultStem
  | names => Text.join "/" names

/-- The places that a router may have, the first one first; `n` of them have a number. -/
def candidatePaths (stem : String) (n : Nat) : List String :=
  (stem ++ ".ts") :: (stem ++ "_router.ts") ::
    (List.range n).map fun k => stem ++ "_router_" ++ toString (k + 1) ++ ".ts"

/-- The first place for a router that is not taken. -/
def modulePath (taken : List String) (folder : String) : String :=
  let candidates := candidatePaths (moduleStem folder) taken.length
  (candidates.find? fun p => p ∉ taken).getD (moduleStem folder ++ ".ts")

/-- The places of the routers of some folders, in order. -/
def modulePathsFrom (taken : List String) : List String → List String
  | [] => []
  | folder :: rest =>
    let p := modulePath taken folder
    p :: modulePathsFrom (p :: taken) rest

/-- The places of the routers of some folders, apart from each other and from the other
generated modules. -/
def modulePaths (folders : List String) : List String :=
  modulePathsFrom [tableFile, entrypointFile] folders

/-- The identifier that the router of a folder asks for. -/
def routerIdentifier (folder : String) : String :=
  Identifier.sanitize ((Path.names ⟨folder⟩).getLast?.getD defaultStem)

/-! ### Routers -/

/-- The routers of a run so far. -/
structure Mounted where
  /-- The routers in the order in which they are mounted. -/
  routers : List Emit.Mount := []
  /-- The identifiers that are taken. -/
  identifiers : List String := Emit.Entrypoint.ownNames
deriving DecidableEq, Inhabited

/-- The routers with one more; a router with the same slug is replaced in its place. -/
def mount (m : Emit.Mount) : List Emit.Mount → List Emit.Mount
  | [] => [m]
  | other :: rest => if other.slug = m.slug then m :: rest else other :: mount m rest

/-- The warning about a slug that is mounted already. -/
def replacedMessage (folder : ApiFolder) : String :=
  "duplicate api_slug '" ++ folder.slug ++ "' for " ++ folder.directory ++
    ", replacing the earlier router"

/-- Adds the router of a folder. -/
def addRouter (output : Path) (folder : ApiFolder) (place : Path) (mounted : Mounted) :
    Run Mounted := do
  let identifier := Identifier.fresh mounted.identifiers (routerIdentifier folder.directory)
  if mounted.routers.any fun m => m.slug = folder.slug then
    Run.warning (replacedMessage folder)
  return {
    routers := mount ⟨identifier, Path.specifier output place, folder.slug⟩ mounted.routers
    identifiers := identifier :: mounted.identifiers }

/-- What the router of a folder is made from. -/
def routerRequest (options : GenerateOptions) (known : Option Middleware.Collection)
    (folder : ApiFolder) (place : Path) : Router.Request :=
  ⟨options.resolve folder.directory, place, folder.middleware.getD [], known⟩

/-- Makes the routers of some folders at their places, in order. -/
def generateRouters (options : GenerateOptions) (known : Option Middleware.Collection) :
    List (ApiFolder × String) → Mounted → Run Mounted
  | [], mounted => return mounted
  | (folder, file) :: rest, mounted => do
    let place := options.outputPath.child file
    match ← (routerRequest options known folder place).generate with
    | .failed => generateRouters options known rest mounted
    | .succeeded =>
      let mounted ← addRouter options.outputPath folder place mounted
      generateRouters options known rest mounted

/-! ### Middleware and scripts -/

/-- Makes the middleware table, if a folder is configured; without a table there is no
middleware. -/
def collectMiddleware (options : GenerateOptions) (config : Config) :
    Run (Option Middleware.Collection) := do
  match config.middlewareFolder with
  | none => return none
  | some folder =>
    let start : Middleware.Collection :=
      { folder := options.resolve folder, modulePath := options.outputPath.child tableFile }
    match ← start.collect with
    | (.succeeded, found) => return some found
    | (.failed, _) => return none

/-- The files of a directory, by name and in order; nothing that cannot be looked at. -/
def filesOf (fs : FileSystem) (directory : Path) (names : List String) : List Path :=
  (names.map directory.child).filter fun p =>
    match fs.isDirectory p with
    | .ok isDirectory => !isDirectory
    | .error _ => false

/-- The specifiers of the scripts that run first. -/
def preRunScripts (options : GenerateOptions) (config : Config) : Run (List String) := do
  match config.preRunScripts with
  | none => return []
  | some folder =>
    let directory := options.resolve folder
    let fs ← Run.files
    if !fs.holds directory then
      Run.info ("The directory for prescripts does not exist: " ++ directory.text)
      return []
    else
      let names ←
        match fs.listNames directory with
        | .ok names => pure names
        | .error e => do
          Run.warning (Manifest.unreadableMessage directory e)
          pure []
      let scripts := filesOf fs directory names
      if scripts = [] then Run.info ("No pre-run scripts found in: " ++ directory.text)
      return scripts.map (Path.specifier options.outputPath)

/-! ### The run -/

/-- The entrypoint of a run. -/
def entrypoint (options : GenerateOptions) (config : Config)
    (known : Option Middleware.Collection) (mounted : Mounted) (scripts : List String) :
    Emit.Entrypoint :=
  let appMiddleware := Middleware.available known (config.appMiddleware.getD [])
  { preRunScripts := scripts
    routers := mounted.routers
    tableImport := Middleware.tableImport known options.outputPath (appMiddleware ≠ [])
    appMiddleware := appMiddleware
    port := config.port }

/-- Whether specifiers of sources cannot be computed: an absolute output directory with a
relative root. -/
def isMixed (options : GenerateOptions) : Bool :=
  options.outputPath.isAbsolute && !options.projectRoot.isAbsolute

/-- The error about an absolute output directory with a relative root. -/
def mixedMessage (options : GenerateOptions) : String :=
  "Output directory " ++ options.outputPath.text ++ " is absolute but the project root " ++
    options.projectRoot.text ++ " is relative"

/-- The error about a project without any router. -/
def noRoutersMessage : String :=
  "No valid api files able to be created from the config and file system, exiting creation"

/-- Makes the modules of a project, its output directory being there. -/
def generateInto (options : GenerateOptions) (config : Config) : Run Outcome := do
  let known ← collectMiddleware options config
  let places := modulePaths (config.apiFolders.map ApiFolder.directory)
  let mounted ← generateRouters options known (config.apiFolders.zip places) {}
  if mounted.routers = [] then
    Run.error noRoutersMessage
    return .failed
  else
    let scripts ← preRunScripts options config
    Run.writeModule (options.outputPath.child entrypointFile)
      (.entrypoint (entrypoint options config known mounted scripts))

/-- Makes the server of a project. -/
def generate (options : GenerateOptions) (config : Config) : Run Outcome := do
  if isMixed options then
    Run.error (mixedMessage options)
    return .failed
  else
    match ← Run.ensureDirectory options.outputPath with
    | .failed => return .failed
    | .succeeded => generateInto options config

end FileRoutes.Server
