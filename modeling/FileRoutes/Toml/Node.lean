import FileRoutes.Decimal.Binary64
import FileRoutes.Text.Parser

/-!
# TOML documents

What a TOML document holds, each value with the stretch of the text it is written in. A
table knows how it came about, since that decides what may still be added to it.

## The model

* `Real` — a floating-point number, which may be infinite or none at all.
* `TableKind` — how a table came about.
* `Node`, `Placed` — a value, and a value with its stretch.
-/

namespace FileRoutes.Toml

/-- A floating-point number. -/
inductive Real where
  /-- A finite number. -/
  | finite (value : Binary64)
  /-- Infinity. -/
  | infinite (negative : Bool)
  /-- No number. -/
  | nan
deriving DecidableEq, Inhabited

/-- How a table came about. -/
inductive TableKind where
  /-- By a header of its own, or as the document itself. -/
  | headed
  /-- By a longer header. -/
  | implied
  /-- By a dotted key. -/
  | dotted
  /-- Between braces; nothing can be added. -/
  | closed
deriving DecidableEq, Inhabited

/-- A value. -/
inductive Node where
  /-- A text. -/
  | text (value : String)
  /-- An integer. -/
  | integer (value : Int)
  /-- A floating-point number. -/
  | real (value : Real)
  /-- A truth value. -/
  | boolean (value : Bool)
  /-- A date, a time, or both. -/
  | moment
  /-- A list between brackets. -/
  | array (items : List (Span × Node))
  /-- A table. -/
  | table (kind : TableKind) (members : List (String × Span × Node))
  /-- A list of tables, each with a header of its own. -/
  | tables (elements : List (Span × List (String × Span × Node)))
deriving Inhabited

/-- A value with its stretch. -/
abbrev Placed := Span × Node

/-- The members of a table. -/
abbrev Members := List (String × Placed)

/-- A key and its stretch. -/
structure Key where
  /-- The key. -/
  name : String
  /-- Where it is written. -/
  span : Span
deriving DecidableEq, Inhabited

end FileRoutes.Toml
