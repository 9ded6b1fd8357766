import FileRoutes.Config.Fields
import FileRoutes.Script.Exports
import FileRoutes.Script.Source
import FileRoutes.Value.Shaped

/-!
# Configs in scripts

A script holds its config as a literal: in the exported variable `config`, in its default,
or assigned to `module.exports`, in this order. Where that literal has no folders but a
member `config`, the member is the config.
-/

namespace FileRoutes.Config

/-- The expression of a module that holds the config. -/
def expressionOf? (m : Script.Module) : Option Script.Expr :=
  (m.binding? "config").or (m.defaultValue?.or m.assignedExports?)

/-- What is said about a script without a config. -/
def noConfigMessage : String :=
  "no `export const config`, `export default` or `module.exports` found"

/-- The config itself, where it is a member of the value. -/
def unwrapped : Value → Value
  | .object members =>
    if (Value.member? "api_folders" members).isSome then .object members
    else (Value.member? "config" members).getD (.object members)
  | v => v

/-- The config of a value, or what is wrong with it. -/
def ofValue (v : Value) : Except String Config :=
  match (Config.read : Value.Reader Config) v with
  | .ok c => .ok c
  | .error e => .error e.message

/-- The config of a script, or what is wrong with it. -/
def ofScript (language : Script.Language) (source : String) : Except String Config :=
  match language.parse? source with
  | none => .error Script.syntaxError
  | some m =>
    match expressionOf? m with
    | none => .error noConfigMessage
    | some e =>
      match Script.evaluate e with
      | .ok v => ofValue (unwrapped v)
      | .error e => .error (e.message source.toList)

end FileRoutes.Config
