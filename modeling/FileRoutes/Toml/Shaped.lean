import FileRoutes.Config.Fields
import FileRoutes.Decimal.Shortest
import FileRoutes.Toml.Grammar

/-!
# Shaped TOML

How the values that a config is made of are read from a TOML document. The members of a
table are taken in the order of their names. A fault of the shape is shown with the line it
is in, and marked there.
-/

namespace FileRoutes.Toml

/-- A fault of the shape and the stretch it is marked at. -/
structure Fault where
  /-- What is wrong. -/
  error : ShapeError
  /-- Where it is marked. -/
  span : Span
deriving DecidableEq, Inhabited

/-- A reader of a value. -/
abbrev Reader := ReaderT Placed (Except Fault)

/-- How a floating-point number is shown: without an exponent. -/
def realStyle : Decimal.Style := ⟨-400, 400, false⟩

/-- The text of a floating-point number. -/
def Real.shown : Real → String
  | finite x => realStyle.text x
  | infinite negative => if negative then "-inf" else "inf"
  | nan => "NaN"

/-- What a message says was found where a value stands. -/
def Node.found : Node → Found
  | text s => .text s
  | integer i => .integer i
  | real x => .float x.shown
  | boolean b => .boolean b
  | moment | table _ _ => .map
  | array _ | tables _ => .sequence

/-- The items of a list, written in either way. -/
def Node.items? : Node → Option (List Placed)
  | array items => some items
  | tables elements => some (elements.map fun (span, members) => (span, .table .headed members))
  | _ => none

/-- The members of a table in the order of their names; a date counts as a table of which
nothing is known. -/
def Node.members? : Node → Option Members
  | table _ members => some (members.mergeSort fun a b => a.1 ≤ b.1)
  | moment => some []
  | _ => none

namespace Reader

/-- Fails at a value. -/
def failAt {α : Type} (v : Placed) (error : ShapeError) : Except Fault α := .error ⟨error, v.1⟩

/-- Fails since a value is of another kind than expected. -/
def unexpected {α : Type} (v : Placed) (expected : String) : Except Fault α :=
  failAt v (.invalidType v.2.found expected)

/-- A text. -/
def text : Reader String := fun v =>
  match v.2 with
  | .text s => .ok s
  | _ => unexpected v expectedText

/-- A port number. -/
def port : Reader UInt16 := fun v =>
  match v.2 with
  | .integer i => (portOf i).mapError fun e => ⟨e, v.1⟩
  | _ => unexpected v expectedPort

/-- A list. -/
def list {α : Type} (item : Reader α) : Reader (List α) := fun v =>
  match v.2.items? with
  | some items => items.mapM item
  | none => unexpected v expectedList

/-- A value that is there. -/
def optional {α : Type} (item : Reader α) : Reader (Option α) := fun v => some <$> item v

variable {σ α : Type}

/-- A member of a table, put into a draft. -/
def member (r : Record Reader σ α) (draft : σ) (m : String × Placed) : Except Fault σ :=
  match r.field? m.1 with
  | some f => f.read draft m.2
  | none => .ok draft

/-- The fields of a record given as a list, put into a draft; `index` of them are done. What is
left of the list says nothing. -/
def fieldsInOrder (r : Record Reader σ α) (v : Placed) :
    List (RecordField Reader σ) → Nat → List Placed → σ → Except Fault σ
  | [], _, _, draft => .ok draft
  | f :: fs, index, item :: left, draft => do
    fieldsInOrder r v fs (index + 1) left (← f.read draft item)
  | f :: fs, index, [], draft =>
    if f.required then failAt v (.invalidLength index r.expectedSequence)
    else fieldsInOrder r v fs (index + 1) [] draft

/-- The record of a draft. -/
def finished (r : Record Reader σ α) (v : Placed) (draft : σ) : Except Fault α :=
  match r.finish draft with
  | .ok a => .ok a
  | .error name => failAt v (.missingField name)

/-- A record, as a table or as a list. -/
def record (r : Record Reader σ α) : Reader α := fun v =>
  match v.2.members?, v.2.items? with
  | some members, _ => do finished r v (← members.foldlM (member r) r.start)
  | none, some items => do finished r v (← fieldsInOrder r v r.fields 0 items r.start)
  | none, none => unexpected v r.expected

end Reader

instance : DataFormat Reader where
  text := Reader.text
  port := Reader.port
  list := Reader.list
  optional := Reader.optional
  record := Reader.record

/-! ### Messages -/

/-- The number of bytes of a text. -/
def byteLength (cs : List Char) : Nat := (String.ofList cs).utf8ByteSize

/-- A text of blanks. -/
def blanks (n : Nat) : String := String.ofList (List.replicate n ' ')

/-- What is said about a fault in a source: the place, the line with the stretch marked below
it, and what is wrong. The mark ends with the line at the latest. -/
def Fault.message (source : List Char) (f : Fault) : String :=
  let start := f.span.start
  let before := source.take start
  let column := (before.reverse.takeWhile fun c => c != '\n').length
  let content := (source.drop (start - column)).takeWhile fun c => c != '\n'
  let number := Decimal.spelled (before.count '\n' + 1)
  let marked := min (byteLength (f.span.slice source)) (byteLength content - column)
  let gutter := blanks (number.length + 1) ++ "|"
  "TOML parse error at line " ++ number ++ ", column " ++ Decimal.spelled (column + 1) ++ "\n" ++
    gutter ++ "\n" ++
    number ++ " | " ++ String.ofList content ++ "\n" ++
    gutter ++ blanks (column + 1) ++ String.ofList (List.replicate (max marked 1) '^') ++ "\n" ++
    f.error.message ++ "\n"

/-- What is said about a text that is no TOML document. -/
def syntaxError : String := "<toml syntax error>"

/-- What a reader makes of a document. An integer of more than 64 bits is only tolerated where
nobody asks for its value, and otherwise makes the text no document. -/
def run {α : Type} (p : Reader α) (text : String) : Except String α :=
  match document? .wide text with
  | none => .error syntaxError
  | some members =>
    match p (⟨0, 0⟩, .table .headed members) with
    | .ok a => .ok a
    | .error fault =>
      if (document? .narrow text).isNone then .error syntaxError
      else .error (fault.message text.toList)

end FileRoutes.Toml
