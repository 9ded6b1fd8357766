import FileRoutes.Config.Basic
import FileRoutes.Decimal.Digits
import FileRoutes.Http.Method
import FileRoutes.Text.Split

/-!
# Written JSON

A config is written as one line of JSON without blanks: the members in their fixed order,
optional ones only where they are set. Inside a string only the quote, the backslash and
the control characters below the blank are escaped.
-/

namespace FileRoutes.Json

/-- A hexadecimal digit. -/
def hexDigit (n : Nat) : Char := Nat.digitChar (n % 16)

/-- The characters that a character is written with inside quotes. -/
def escape (c : Char) : List Char :=
  if c = '"' then ['\\', '"']
  else if c = '\\' then ['\\', '\\']
  else if c = '\x08' then ['\\', 'b']
  else if c = '\x0c' then ['\\', 'f']
  else if c = '\n' then ['\\', 'n']
  else if c = '\r' then ['\\', 'r']
  else if c = '\t' then ['\\', 't']
  else if c < ' ' then ['\\', 'u', '0', '0', hexDigit (c.toNat / 16), hexDigit c.toNat]
  else [c]

/-- A text as a JSON string. -/
def writtenText (s : String) : String :=
  String.ofList ('"' :: s.toList.flatMap escape ++ ['"'])

/-- A list of values that are written already. -/
def writtenList (items : List String) : String := "[" ++ Text.join "," items ++ "]"

/-- A list of texts. -/
def writtenTexts (l : List String) : String := writtenList (l.map writtenText)

/-- A member whose value is written already. -/
def writtenMember (name value : String) : String := writtenText name ++ ":" ++ value

/-- A member that is left out where there is no value. -/
def writtenOptional {α : Type} (name : String) (write : α → String) (value : Option α) :
    List String :=
  (value.map fun a => writtenMember name (write a)).toList

/-- An object of members that are written already. -/
def writtenObject (members : List String) : String := "\x7b" ++ Text.join "," members ++ "\x7d"

end FileRoutes.Json

namespace FileRoutes

open Json

/-- A folder of handlers as JSON. -/
def ApiFolder.toJson (f : ApiFolder) : String :=
  writtenObject ([
    writtenMember "directory" (writtenText f.directory),
    writtenMember "api_slug" (writtenText f.slug)] ++
    writtenOptional "middleware" writtenTexts f.middleware)

/-- A config as JSON. -/
def Config.toJson (c : Config) : String :=
  writtenObject ([
    writtenMember "api_folders" (writtenList (c.apiFolders.map ApiFolder.toJson)),
    writtenMember "port" (Decimal.spelled c.port.toNat)] ++
    writtenOptional "middleware_folder" writtenText c.middlewareFolder ++
    writtenOptional "app_middleware" writtenTexts c.appMiddleware ++
    writtenOptional "pre_run_scripts" writtenText c.preRunScripts ++
    writtenOptional "rollupExternals" writtenTexts c.externals)

/-- A method as JSON. -/
def Http.Method.toJson (m : Http.Method) : String := writtenText m.verb

end FileRoutes
