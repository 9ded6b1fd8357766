import FileRoutes.Config.Shape
import FileRoutes.Decimal.Shortest

/-!
# Reading JSON

JSON is read in one pass from left to right, and the first fault in the text decides what
is reported: a value of the wrong shape before a missing bracket behind it. A fault has a
place, a line and a column in bytes. A fault of the shape is placed where the reader
stands when the value around it is over; any other fault is placed where it is found.

## The model

* `Json.Cursor` — the text ahead, and the line and column of what was read.
* `Json.Cause`, `Json.Error` — what is wrong, and where.
* `Json.Reader` — a reader; it moves on even where it fails, since the place of a fault of
  the shape depends on how far the text was read.
-/

namespace FileRoutes.Json

/-- A place in a text. -/
structure Cursor where
  /-- The characters ahead. -/
  rest : List Char
  /-- The line, counted from one. -/
  line : Nat
  /-- The bytes of the line that were read. -/
  column : Nat
deriving Inhabited

namespace Cursor

/-- The start of a text. -/
def ofText (s : String) : Cursor := ⟨s.toList, 1, 0⟩

/-- The cursor behind the next character. -/
def next (c : Cursor) : Cursor :=
  match c.rest with
  | [] => c
  | d :: ds => if d = '\n' then ⟨ds, c.line + 1, 0⟩ else ⟨ds, c.line, c.column + d.utf8Size⟩

/-- The line and the column that some more bytes lead to, as far as there are any. -/
def placeAfter (line column : Nat) : List Char → Nat → Nat × Nat
  | _, 0 => (line, column)
  | [], _ => (line, column)
  | d :: ds, bytes =>
    if d = '\n' then placeAfter (line + 1) 0 ds (bytes - 1)
    else if bytes ≤ d.utf8Size then (line, column + bytes)
    else placeAfter line (column + d.utf8Size) ds (bytes - d.utf8Size)

end Cursor

/-- What is wrong with a text. -/
inductive Cause where
  /-- The text ends inside a list. -/
  | endInList
  /-- The text ends inside an object. -/
  | endInObject
  /-- The text ends inside a string. -/
  | endInText
  /-- The text ends where a value is expected. -/
  | endBeforeValue
  /-- No colon behind a name. -/
  | noColon
  /-- Neither a comma nor the end of the list. -/
  | noListComma
  /-- Neither a comma nor the end of the object. -/
  | noObjectComma
  /-- The rest of a word is not there. -/
  | noWord
  /-- No value. -/
  | noValue
  /-- A backslash before a character that needs none. -/
  | invalidEscape
  /-- A number that is none. -/
  | invalidNumber
  /-- A number too large for a floating-point number. -/
  | numberOutOfRange
  /-- A control character inside a string. -/
  | controlCharacter
  /-- A name that is no string. -/
  | nameNoText
  /-- Half of a pair of surrogates. -/
  | loneSurrogate
  /-- A comma before the end of a list or object. -/
  | trailingComma
  /-- Something behind the end. -/
  | trailingCharacters
  /-- The second half of a pair of surrogates is not there. -/
  | unfinishedSurrogate
  /-- A fault of the shape. -/
  | shape (error : ShapeError)
deriving DecidableEq, Inhabited

/-- What is said about a cause. -/
def Cause.message : Cause → String
  | endInList => "EOF while parsing a list"
  | endInObject => "EOF while parsing an object"
  | endInText => "EOF while parsing a string"
  | endBeforeValue => "EOF while parsing a value"
  | noColon => "expected `:`"
  | noListComma => "expected `,` or `]`"
  | noObjectComma => "expected `,` or `\x7d`"
  | noWord => "expected ident"
  | noValue => "expected value"
  | invalidEscape => "invalid escape"
  | invalidNumber => "invalid number"
  | numberOutOfRange => "number out of range"
  | controlCharacter => "control character (\\u0000-\\u001F) found while parsing a string"
  | nameNoText => "key must be a string"
  | loneSurrogate => "lone leading surrogate in hex escape"
  | trailingComma => "trailing comma"
  | trailingCharacters => "trailing characters"
  | unfinishedSurrogate => "unexpected end of hex escape"
  | shape error => error.message

/-- A fault and its place; a fault of the shape may still be without one. -/
structure Error where
  /-- What is wrong. -/
  cause : Cause
  /-- The line and the column. -/
  place : Option (Nat × Nat)
deriving DecidableEq, Inhabited

/-- What is said about a fault. -/
def Error.message (e : Error) : String :=
  match e.place with
  | none => e.cause.message
  | some (line, column) =>
    e.cause.message ++ " at line " ++ Decimal.spelled line ++ " column " ++ Decimal.spelled column

/-- A reader of a part of a text. -/
abbrev Reader := ExceptT Error (StateM Cursor)

namespace Reader

/-- Fails at the cursor. -/
def failHere {α : Type} (cause : Cause) : Reader α := do
  let c : Cursor ← get
  throw ⟨cause, some (c.line, c.column)⟩

/-- Fails some bytes further on. -/
def failAfter {α : Type} (bytes : Nat) (cause : Cause) : Reader α := do
  let c : Cursor ← get
  throw ⟨cause, some (Cursor.placeAfter c.line c.column c.rest bytes)⟩

/-- Fails at the first byte ahead. -/
def failAhead {α : Type} (cause : Cause) : Reader α := failAfter 1 cause

/-- Fails for a fault of the shape, whose place is not yet known. -/
def failShape {α : Type} (error : ShapeError) : Reader α := throw ⟨.shape error, none⟩

/-- Gives a fault without a place the place of the cursor. -/
def placed {α : Type} (p : Reader α) : Reader α :=
  tryCatch p fun e => do
    let c : Cursor ← get
    throw { e with place := e.place.or (some (c.line, c.column)) }

/-- The next character. -/
def peek : Reader (Option Char) := do return (← get (σ := Cursor)).rest.head?

/-- Moves over the next character. -/
def skip : Reader Unit := modify Cursor.next

/-- Whether a character is blank. -/
def isBlank (c : Char) : Bool := c == ' ' || c == '\n' || c == '\t' || c == '\r'

/-- Moves over as many characters of a kind as there are. -/
def skipWhile (kind : Char → Bool) : Reader Unit := do
  let c : Cursor ← get
  set ((c.rest.takeWhile kind).foldl (fun (c : Cursor) _ => c.next) c)

/-- Skips blanks and gives the next character. -/
def peekToken : Reader (Option Char) := do
  skipWhile isBlank
  peek

/-- A bound on the number of steps of a reader that moves on in each of them. -/
def stepBound : Reader Nat := do return (← get (σ := Cursor)).rest.length + 1

/-- The rest of a word, letter by letter. -/
def restOfWord : List Char → Reader Unit
  | [] => pure ()
  | w :: ws => do
    match ← peek with
    | none => failHere .endBeforeValue
    | some c =>
      if c = w then
        skip
        restOfWord ws
      else failAhead .noWord

end Reader

end FileRoutes.Json
