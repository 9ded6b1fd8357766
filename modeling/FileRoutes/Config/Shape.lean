import FileRoutes.Text.Shown
import FileRoutes.Text.Split
import FileRoutes.Decimal.Digits

/-!
# The shape of data

A config may come as JSON, as TOML or as a literal in a script. What it has to look like is
said once, over a class of formats: a format knows how to read a text, a port number, a
list, something optional, and a record of named fields. What can be wrong with the shape of
data, and what is said about it, is the same for all formats.

## The model

* `Found`, `ShapeError` — what stands in the data, and what is wrong with it.
* `Record` — the fields of a record, collected in a draft; a record may also be given as a
  sequence in the order of its fields, and fields at the end may then be missing.
* `DataFormat` — what a format has to know.
-/

namespace FileRoutes

/-- What stands in data in a place where it is not expected. -/
inductive Found where
  /-- The missing value. -/
  | null
  /-- A truth value. -/
  | boolean (value : Bool)
  /-- An integer. -/
  | integer (value : Int)
  /-- A floating-point number, as it is shown. -/
  | float (shown : String)
  /-- A text. -/
  | text (value : String)
  /-- A list. -/
  | sequence
  /-- Named values. -/
  | map
deriving DecidableEq, Inhabited

/-- The decimal spelling of an integer. -/
def spelledInt (i : Int) : String := (if i < 0 then "-" else "") ++ Decimal.spelled i.natAbs

/-- How a message describes what stands in the data. -/
def Found.describe : Found → String
  | null => "null"
  | boolean b => "boolean `" ++ (if b then "true" else "false") ++ "`"
  | integer i => "integer `" ++ spelledInt i ++ "`"
  | float shown => "floating point `" ++ shown ++ "`"
  | text s => "string " ++ Text.shown s
  | sequence => "sequence"
  | map => "map"

/-- What is wrong with the shape of data. -/
inductive ShapeError where
  /-- Something of another kind is expected. -/
  | invalidType (found : Found) (expected : String)
  /-- Something else of this kind is expected. -/
  | invalidValue (found : Found) (expected : String)
  /-- A sequence of another length is expected. -/
  | invalidLength (length : Nat) (expected : String)
  /-- A field is missing. -/
  | missingField (name : String)
  /-- A field is given twice. -/
  | duplicateField (name : String)
  /-- A name is none of those it may be. -/
  | unknownVariant (name : String) (known : List String)
deriving DecidableEq, Inhabited

/-- Names between backticks, separated by commas. -/
def tickedNames (names : List String) : String :=
  Text.join ", " (names.map fun n => "`" ++ n ++ "`")

/-- What is said about the shape of data. -/
def ShapeError.message : ShapeError → String
  | invalidType found expected =>
    "invalid type: " ++ found.describe ++ ", expected " ++ expected
  | invalidValue found expected =>
    "invalid value: " ++ found.describe ++ ", expected " ++ expected
  | invalidLength length expected =>
    "invalid length " ++ Decimal.spelled length ++ ", expected " ++ expected
  | missingField name => "missing field `" ++ name ++ "`"
  | duplicateField name => "duplicate field `" ++ name ++ "`"
  | unknownVariant name known =>
    "unknown variant `" ++ name ++ "`, expected one of " ++ tickedNames known

/-! ### Records and formats -/

/-- A field of a record; `σ` is the draft that collects the fields. -/
structure RecordField (m : Type → Type) (σ : Type) where
  /-- The name of the field. -/
  name : String
  /-- Whether the record is incomplete without it. -/
  required : Bool
  /-- Whether the draft holds it already. -/
  isSet : σ → Bool
  /-- Reads its value into the draft. -/
  read : σ → m σ

/-- A record read by way of a draft. -/
structure Record (m : Type → Type) (σ α : Type) where
  /-- The name of the record in messages. -/
  name : String
  /-- The fields, in order. -/
  fields : List (RecordField m σ)
  /-- The draft without any field. -/
  start : σ
  /-- The record of a draft, or the name of the first field it lacks. -/
  finish : σ → Except String α

namespace Record

variable {m : Type → Type} {σ α : Type}

/-- What a message calls the record. -/
def expected (r : Record m σ α) : String := "struct " ++ r.name

/-- What a message calls the record given as a sequence. -/
def expectedSequence (r : Record m σ α) : String :=
  r.expected ++ " with " ++ Decimal.spelled r.fields.length ++ " elements"

/-- The field with a name. -/
def field? (r : Record m σ α) (name : String) : Option (RecordField m σ) :=
  r.fields.find? fun f => f.name = name

end Record

/-- A format of data: how the values a config is made of are read. -/
class DataFormat (m : Type → Type) extends Monad m where
  /-- A text. -/
  text : m String
  /-- A port number. -/
  port : m UInt16
  /-- A list. -/
  list {α : Type} (item : m α) : m (List α)
  /-- A value that may be given as null. -/
  optional {α : Type} (item : m α) : m (Option α)
  /-- A record. -/
  record {σ α : Type} (r : Record m σ α) : m α

/-- What a message calls a text. -/
def expectedText : String := "a string"

/-- What a message calls a list. -/
def expectedList : String := "a sequence"

/-- What a message calls a port number. -/
def expectedPort : String := "u16"

/-- The port number that an integer is. -/
def portOf (i : Int) : Except ShapeError UInt16 :=
  if 0 ≤ i ∧ i < 65536 then .ok (UInt16.ofNat i.toNat)
  else .error (.invalidValue (.integer i) expectedPort)

end FileRoutes
