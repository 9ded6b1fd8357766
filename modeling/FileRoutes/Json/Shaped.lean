import FileRoutes.Config.Shape
import FileRoutes.Json.Skip

/-!
# Shaped JSON

How the values that a config is made of are read from JSON. A list or an object that is
faulty inside is still looked at up to where its end should be, which moves on the place of
a fault of the shape; but the fault inside is the one that is told.
-/

namespace FileRoutes.Json

namespace Reader

/-! ### Values of another kind -/

/-- A word, its first letter ahead. -/
def word (rest : String) (found : Found) : Reader Found := do
  skip
  restOfWord rest.toList
  return found

/-- What stands ahead where something else is expected. A list and an object are not entered. -/
def found : Reader Found := do
  match ← peek with
  | some 'n' => word "ull" .null
  | some 't' => word "rue" (.boolean true)
  | some 'f' => word "alse" (.boolean false)
  | some '"' => return .text (← quotedText)
  | some '[' => return .sequence
  | some '\x7b' => return .map
  | some c =>
    if c = '-' ∨ isDigit c then return (← number).found else failAhead .noValue
  | none => failAhead .noValue

/-- Fails since a value is of another kind than expected. -/
def unexpected {α : Type} (expected : String) : Reader α := do
  failShape (.invalidType (← found) expected)

/-- The character a value starts with. -/
def tokenOfValue : Reader Char := do
  match ← peekToken with
  | some c => return c
  | none => failAhead .endBeforeValue

/-! ### Texts and numbers -/

/-- A text; `expected` is what a message calls it. -/
def textAs (expected : String) : Reader String := do
  if (← tokenOfValue) = '"' then quotedText else placed (unexpected expected)

/-- A port number. -/
def port : Reader UInt16 := do
  let c ← tokenOfValue
  placed do
    if c = '-' ∨ isDigit c then
      match ← number with
      | .integer i =>
        match portOf i with
        | .ok p => return p
        | .error e => failShape e
      | n => failShape (.invalidType n.found expectedPort)
    else unexpected expectedPort

/-- A value that may be null. -/
def optional {α : Type} (item : Reader α) : Reader (Option α) := do
  match ← peekToken with
  | some 'n' =>
    skip
    restOfWord "ull".toList
    return none
  | _ => some <$> item

/-! ### Lists and objects -/

/-- The outcome of a reader as a value, the cursor moved on as far as it got. -/
def outcome {α : Type} (p : Reader α) : Reader (Except Error α) :=
  tryCatch (.ok <$> p) fun e => return .error e

/-- A body inside brackets and its end; of two faults the first one is told. -/
def enclosed {α : Type} (body : Reader α) (finish : Reader Unit) : Reader α := do
  skip
  let inside ← outcome body
  let atEnd ← outcome finish
  match inside, atEnd with
  | .error e, _ => throw e
  | .ok _, .error e => throw e
  | .ok a, .ok _ => return a

/-- Moves to the next element of a list; tells whether there is one. -/
def nextElement (isFirst : Bool) : Reader Bool := do
  match ← peekToken with
  | none => failAhead .endInList
  | some ']' => return false
  | some c =>
    if isFirst then return true
    else if c = ',' then
      skip
      match ← peekToken with
      | none => failAhead .endBeforeValue
      | some ']' => failAhead .trailingComma
      | some _ => return true
    else failAhead .noListComma

/-- Moves to the next name of an object; tells whether there is one. -/
def nextName (isFirst : Bool) : Reader Bool := do
  match ← peekToken with
  | none => failAhead .endInObject
  | some '\x7d' => return false
  | some c =>
    if isFirst then
      if c = '"' then return true else failAhead .nameNoText
    else if c = ',' then
      skip
      match ← peekToken with
      | none => failAhead .endBeforeValue
      | some '"' => return true
      | some '\x7d' => failAhead .trailingComma
      | some _ => failAhead .nameNoText
    else failAhead .noObjectComma

/-- The end of a list. -/
def listEnd : Reader Unit := do
  match ← peekToken with
  | none => failAhead .endInList
  | some ']' => skip
  | some ',' =>
    skip
    match ← peekToken with
    | some ']' => failAhead .trailingComma
    | _ => failAhead .trailingCharacters
  | some _ => failAhead .trailingCharacters

/-- The end of an object. -/
def objectEnd : Reader Unit := do
  match ← peekToken with
  | none => failAhead .endInObject
  | some '\x7d' => skip
  | some ',' => failAhead .trailingComma
  | some _ => failAhead .trailingCharacters

/-- The elements of a list; `fuel` bounds their number. -/
def elements {α : Type} (item : Reader α) : Nat → Bool → Reader (List α)
  | 0, _ => return []
  | fuel + 1, isFirst => do
    if ← nextElement isFirst then
      let a ← item
      return a :: (← elements item fuel false)
    else return []

/-- A list. -/
def list {α : Type} (item : Reader α) : Reader (List α) := do
  let c ← tokenOfValue
  placed do
    if c = '[' then enclosed (do elements item (← stepBound) true) listEnd
    else unexpected expectedList

variable {σ α : Type}

/-- The members of an object, put into a draft; `fuel` bounds their number. -/
def members (r : Record Reader σ α) : Nat → Bool → σ → Reader σ
  | 0, _, draft => return draft
  | fuel + 1, isFirst, draft => do
    if ← nextName isFirst then
      let name ← quotedText
      match r.field? name with
      | none =>
        colon
        skipValue
        members r fuel false draft
      | some f =>
        if f.isSet draft then failShape (.duplicateField f.name)
        else
          colon
          members r fuel false (← f.read draft)
    else return draft

/-- The fields of a record given as a list, put into a draft; `index` of them are done. -/
def fieldsInOrder (r : Record Reader σ α) :
    List (RecordField Reader σ) → Nat → σ → Reader σ
  | [], _, draft => return draft
  | f :: fs, index, draft => do
    if ← nextElement (index = 0) then fieldsInOrder r fs (index + 1) (← f.read draft)
    else if f.required then failShape (.invalidLength index r.expectedSequence)
    else fieldsInOrder r fs (index + 1) draft

/-- The record of a draft. -/
def finished (r : Record Reader σ α) (draft : σ) : Reader α :=
  match r.finish draft with
  | .ok a => return a
  | .error name => failShape (.missingField name)

/-- A record, as an object or as a list. -/
def record (r : Record Reader σ α) : Reader α := do
  let c ← tokenOfValue
  placed do
    if c = '[' then
      enclosed (do finished r (← fieldsInOrder r r.fields 0 r.start)) listEnd
    else if c = '\x7b' then
      enclosed (do finished r (← members r (← stepBound) true r.start)) objectEnd
    else unexpected r.expected

/-! ### Documents -/

/-- The end of a document. -/
def documentEnd : Reader Unit := do
  if (← peekToken).isSome then failAhead .trailingCharacters

/-- What a reader makes of a whole text. -/
def run {α : Type} (p : Reader α) (s : String) : Except Error α :=
  (ExceptT.run (do
    let a ← p
    documentEnd
    return a) (Cursor.ofText s)).1

end Reader

instance : DataFormat Reader where
  text := Reader.textAs expectedText
  port := Reader.port
  list := Reader.list
  optional := Reader.optional
  record := Reader.record

end FileRoutes.Json
