import FileRoutes.Config.Shape
import FileRoutes.Json.Number
import FileRoutes.Value

/-!
# Shaped values

How the values that a config is made of are read from a value that a literal denotes. The
members of an object are taken in the order of their names. There are no places: a fault is
told by what is wrong alone.
-/

namespace FileRoutes

/-- A reader of a value. -/
abbrev Value.Reader := ReaderT Value (Except ShapeError)

/-- What a message says was found where a value stands. -/
def Value.found : Value → Found
  | null => .null
  | boolean b => .boolean b
  | int i => .integer i
  | float x => .float (Json.floatStyle.text x)
  | text s => .text s
  | array _ => .sequence
  | object _ => .map

namespace Value.Reader

/-- What a message calls a list without the elements that are too many. -/
def expectedFewer : String := "fewer elements in array"

/-- Fails since the value is of another kind than expected. -/
def unexpected {α : Type} (v : Value) (expected : String) : Except ShapeError α :=
  .error (.invalidType v.found expected)

/-- A text. -/
def text : Value.Reader String
  | .text s => .ok s
  | v => unexpected v expectedText

/-- A port number. -/
def port : Value.Reader UInt16
  | .int i => portOf i
  | v => unexpected v expectedPort

/-- A list. -/
def list {α : Type} (item : Value.Reader α) : Value.Reader (List α)
  | .array items => items.mapM item
  | v => unexpected v expectedList

/-- A value that may be null. -/
def optional {α : Type} (item : Value.Reader α) : Value.Reader (Option α)
  | .null => .ok none
  | v => some <$> item v

variable {σ α : Type}

/-- A member of an object, put into a draft. -/
def member (r : Record Value.Reader σ α) (draft : σ) (m : String × Value) : Except ShapeError σ :=
  match r.field? m.1 with
  | some f => f.read draft m.2
  | none => .ok draft

/-- The fields of a record given as a list, put into a draft; `index` of them are done, and
what is left of the list is given too. -/
def fieldsInOrder (r : Record Value.Reader σ α) :
    List (RecordField Value.Reader σ) → Nat → List Value → σ → Except ShapeError (σ × List Value)
  | [], _, left, draft => .ok (draft, left)
  | f :: fs, index, v :: left, draft => do
    fieldsInOrder r fs (index + 1) left (← f.read draft v)
  | f :: fs, index, [], draft =>
    if f.required then .error (.invalidLength index r.expectedSequence)
    else fieldsInOrder r fs (index + 1) [] draft

/-- The record of a draft. -/
def finished (r : Record Value.Reader σ α) (draft : σ) : Except ShapeError α :=
  match r.finish draft with
  | .ok a => .ok a
  | .error name => .error (.missingField name)

/-- A record, as an object or as a list. -/
def record (r : Record Value.Reader σ α) : Value.Reader α
  | .object members => do finished r (← members.foldlM (member r) r.start)
  | .array items => do
    let (draft, left) ← fieldsInOrder r r.fields 0 items r.start
    let a ← finished r draft
    if left = [] then return a else throw (.invalidLength items.length expectedFewer)
  | v => unexpected v r.expected

end Value.Reader

instance : DataFormat Value.Reader where
  text := Value.Reader.text
  port := Value.Reader.port
  list := Value.Reader.list
  optional := Value.Reader.optional
  record := Value.Reader.record

end FileRoutes
