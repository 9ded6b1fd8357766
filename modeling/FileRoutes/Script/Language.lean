import FileRoutes.Path.Basic
import FileRoutes.Text.Blank

/-!
# Script languages

Which files are sources is read off their extension, and so is the language a source is
written in. A language is tried as a list of dialects: a plain script may hold type
annotations or markup after all, so it is read with the wider dialects where its own
rejects it.
-/

namespace FileRoutes.Script

/-- A language in which handlers are written. -/
inductive Language where
  /-- Plain scripts. -/
  | javascript
  /-- Scripts with type annotations. -/
  | typescript
  /-- Scripts with type annotations and markup. -/
  | tsx
deriving DecidableEq, Inhabited

/-- What a source may hold. -/
inductive Dialect where
  /-- Plain scripts, with elements in angle brackets. -/
  | plain
  /-- Scripts with types. -/
  | typed
  /-- Scripts with types and with elements in angle brackets. -/
  | typedMarkup
deriving DecidableEq, Inhabited

namespace Dialect

/-- Whether a source may hold types. -/
def types : Dialect → Bool
  | plain => false
  | typed | typedMarkup => true

/-- Whether a source may hold elements. -/
def markup : Dialect → Bool
  | typed => false
  | plain | typedMarkup => true

end Dialect

namespace Language

/-- The name of the language in small letters. -/
def word : Language → String
  | javascript => "javascript"
  | typescript => "typescript"
  | tsx => "tsx"

/-- The language with this name. -/
def ofWord? (s : String) : Option Language :=
  [javascript, typescript, tsx].find? fun l => l.word == s

/-- The language of the files with an extension, in any case. -/
def ofExtension? (extension : String) : Option Language :=
  match Text.lower extension with
  | "ts" | "mts" | "cts" => some typescript
  | "tsx" => some tsx
  | "js" | "mjs" | "cjs" | "jsx" => some javascript
  | _ => none

/-- The language of a file; none where the file is no source. -/
def ofPath? (p : Path) : Option Language := p.extension? >>= ofExtension?

/-- The dialect the language itself stands for. -/
def dialect : Language → Dialect
  | javascript => .plain
  | typescript => .typed
  | tsx => .typedMarkup

/-- The dialects in which a source is read, the first that accepts it decides. -/
def dialects : Language → List Dialect
  | javascript => [javascript.dialect, typescript.dialect, tsx.dialect]
  | l => [l.dialect]

theorem ofWord_word (l : Language) : ofWord? l.word = some l := by
  cases l <;> decide

end Language

end FileRoutes.Script
