import FileRoutes.Config.Basic
import FileRoutes.Config.Shape

/-!
# The fields of a config

The records that a config and a handler's own settings are made of, said once for all
formats.
-/

namespace FileRoutes

variable {m : Type → Type} [DataFormat m]

/-- A field that has to be there. -/
def requiredField {σ α : Type} (name : String) (get : σ → Option α) (set : σ → α → σ)
    (read : m α) : RecordField m σ where
  name := name
  required := true
  isSet s := (get s).isSome
  read s := do return set s (← read)

/-- A field that may be missing, and may be null. -/
def optionalField {σ α : Type} (name : String) (get : σ → Option (Option α))
    (set : σ → Option α → σ) (read : m α) : RecordField m σ where
  name := name
  required := false
  isSet s := (get s).isSome
  read s := do return set s (← DataFormat.optional read)

/-- A list of texts. -/
def textList : m (List String) := DataFormat.list DataFormat.text

/-! ### Folders -/

/-- A folder of handlers whose fields are still collected. -/
structure ApiFolder.Draft where
  /-- The folder. -/
  directory : Option String := none
  /-- The path of the router. -/
  slug : Option String := none
  /-- The middleware, if it was given. -/
  middleware : Option (Option (List String)) := none

/-- The record of a folder of handlers. -/
def ApiFolder.record : Record m ApiFolder.Draft ApiFolder where
  name := "ApiFolder"
  start := {}
  fields := [
    requiredField "directory" (·.directory) (fun d v => { d with directory := some v })
      DataFormat.text,
    requiredField "api_slug" (·.slug) (fun d v => { d with slug := some v }) DataFormat.text,
    optionalField "middleware" (·.middleware) (fun d v => { d with middleware := some v })
      textList]
  finish d :=
    match d.directory, d.slug with
    | none, _ => .error "directory"
    | _, none => .error "api_slug"
    | some directory, some slug => .ok ⟨directory, slug, d.middleware.getD none⟩

/-- A folder of handlers. -/
def ApiFolder.read : m ApiFolder := DataFormat.record ApiFolder.record

/-! ### Configs -/

/-- A config whose fields are still collected. -/
structure Config.Draft where
  /-- The folders of handlers. -/
  apiFolders : Option (List ApiFolder) := none
  /-- The port. -/
  port : Option UInt16 := none
  /-- The folder of middleware, if it was given. -/
  middlewareFolder : Option (Option String) := none
  /-- The middleware of the application, if it was given. -/
  appMiddleware : Option (Option (List String)) := none
  /-- The folder of scripts, if it was given. -/
  preRunScripts : Option (Option String) := none
  /-- The packages left outside, if they were given. -/
  externals : Option (Option (List String)) := none

/-- The record of a config. -/
def Config.record : Record m Config.Draft Config where
  name := "AutoApiConfig"
  start := {}
  fields := [
    requiredField "api_folders" (·.apiFolders) (fun d v => { d with apiFolders := some v })
      (DataFormat.list ApiFolder.read),
    requiredField "port" (·.port) (fun d v => { d with port := some v }) DataFormat.port,
    optionalField "middleware_folder" (·.middlewareFolder)
      (fun d v => { d with middlewareFolder := some v }) DataFormat.text,
    optionalField "app_middleware" (·.appMiddleware)
      (fun d v => { d with appMiddleware := some v }) textList,
    optionalField "pre_run_scripts" (·.preRunScripts)
      (fun d v => { d with preRunScripts := some v }) DataFormat.text,
    optionalField "rollupExternals" (·.externals) (fun d v => { d with externals := some v })
      textList]
  finish d :=
    match d.apiFolders, d.port with
    | none, _ => .error "api_folders"
    | _, none => .error "port"
    | some folders, some port => .ok {
        apiFolders := folders
        port := port
        middlewareFolder := d.middlewareFolder.getD none
        appMiddleware := d.appMiddleware.getD none
        preRunScripts := d.preRunScripts.getD none
        externals := d.externals.getD none }

/-- A config. -/
def Config.read : m Config := DataFormat.record Config.record

/-! ### Handlers -/

/-- What a handler's own `config` may set. -/
structure HandlerSettings where
  /-- The verb, as it is spelled. -/
  method : Option String := none
  /-- The middleware before the handler, by name. -/
  middleware : Option (List String) := none
deriving DecidableEq, Inhabited

/-- The settings of a handler that are still collected. -/
structure HandlerSettings.Draft where
  /-- The verb, if it was given. -/
  method : Option (Option String) := none
  /-- The middleware, if it was given. -/
  middleware : Option (Option (List String)) := none

/-- The record of a handler's settings. -/
def HandlerSettings.record : Record m HandlerSettings.Draft HandlerSettings where
  name := "RawEntryConfig"
  start := {}
  fields := [
    optionalField "httpMethod" (·.method) (fun d v => { d with method := some v })
      DataFormat.text,
    optionalField "middleware" (·.middleware) (fun d v => { d with middleware := some v })
      textList]
  finish d := .ok ⟨d.method.getD none, d.middleware.getD none⟩

/-- The settings of a handler. -/
def HandlerSettings.read : m HandlerSettings := DataFormat.record HandlerSettings.record

end FileRoutes
