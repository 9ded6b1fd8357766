import FileRoutes.Config.Script
import FileRoutes.FileSystem.Reading
import FileRoutes.Json.Shaped
import FileRoutes.Toml.Shaped

/-!
# Loading a config

A project has its config in a file of a fixed name at its root. The extension of the file
tells the format; of several such files the first one in a fixed order is taken.
-/

namespace FileRoutes.Config

/-- Why a config cannot be loaded. -/
inductive LoadError where
  /-- The file cannot be read. -/
  | unreadable (path : Path) (error : FileSystem.Error)
  /-- The extension tells no format. -/
  | unsupported (path : Path)
  /-- The text of the file is no config. -/
  | invalid (path : Path) (cause : String)
deriving DecidableEq, Inhabited

/-- What is said about a config that cannot be loaded. -/
def LoadError.message : LoadError → String
  | unreadable path e => "failed to read config " ++ path.text ++ ": " ++ e.message
  | unsupported path => "unsupported config format: " ++ path.text
  | invalid path cause => "invalid config " ++ path.text ++ ": " ++ cause

/-- A format of configs. -/
inductive Format where
  /-- JSON. -/
  | json
  /-- TOML. -/
  | toml
  /-- A literal in a script. -/
  | script (language : Script.Language)
deriving DecidableEq, Inhabited

/-- The format of a file, as its extension tells. -/
def Format.ofPath? (p : Path) : Option Format :=
  match Text.lower (p.extension?.getD "") with
  | "json" => some .json
  | "toml" => some .toml
  | _ => (Script.Language.ofPath? p).map .script

/-- The config that a text is in a format, or what is wrong with it. -/
def ofText (text : String) : Format → Except String Config
  | .json => (Json.Reader.run Config.read text).mapError Json.Error.message
  | .toml => Toml.run Config.read text
  | .script language => ofScript language text

/-- Loads a config from a file. -/
def load (fs : FileSystem) (p : Path) : Except LoadError Config :=
  match fs.readText p with
  | .error e => .error (.unreadable p e)
  | .ok text =>
    match Format.ofPath? p with
    | none => .error (.unsupported p)
    | some format => (ofText text format).mapError (.invalid p)

/-- The names that a config may have, the first one first. -/
def fileNames : List String :=
  ["ts", "js", "json", "cjs", "mjs", "toml"].map fun extension => "autoapi.config." ++ extension

/-- The config file of a project. -/
def file? (fs : FileSystem) (root : Path) : Option Path :=
  (fileNames.map root.child).find? fun p => fs.isFile p

end FileRoutes.Config
