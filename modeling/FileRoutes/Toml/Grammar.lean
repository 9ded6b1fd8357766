import FileRoutes.Toml.Quoted
import FileRoutes.Toml.Scalar
import FileRoutes.Toml.Tables

/-!
# The grammar of TOML

A document is a sequence of lines: pairs of a key and a value, and headers of tables. Lists
and tables between brackets may go over several lines, with comments in between, and nest
up to a fixed depth.
-/

namespace FileRoutes.Toml

open Parser

/-- How deep brackets may be nested. -/
def nestingLimit : Nat := 80

/-- Moves over a comment. -/
def comment : Parser Unit := do
  exact ['#']
  advance ((← ahead).takeWhile fun c => !isControl c).length

/-- Moves over blanks, comments and line breaks. -/
def spread : Parser Unit :=
  repeated (fun (_ : Unit) => do
    match ← ahead with
    | [] => return none
    | c :: _ =>
      if isGap c then
        gap
        return some ()
      else if c = '#' then
        comment
        return some ()
      else if ← accepts lineBreak then return some ()
      else return none) ()

/-! ### Keys -/

/-- Whether a character may stand in a bare key. -/
def isBare (c : Char) : Bool := c.isAlphanum || c = '_' || c = '-'

/-- One part of a key. -/
def keyPart : Parser Key := do
  let start ← here
  let cs ← ahead
  match cs with
  | '"' :: _ | '\'' :: _ =>
    require (cs.take 3 ≠ ['"', '"', '"'] && cs.take 3 ≠ ['\'', '\'', '\''])
    let name ← quotedText
    return ⟨name, ← spanFrom start⟩
  | _ =>
    let name := cs.takeWhile isBare
    require (name ≠ [])
    advance name.length
    return ⟨String.ofList name, ← spanFrom start⟩

/-- A key with the keys of the tables it leads through, and the blanks behind it. -/
def keyPath : Parser (List Key) := do
  let first ← keyPart
  gap
  let parts ← repeated (fun (parts : List Key) => do
    if ← accepts (exact ['.']) then
      gap
      let part ← keyPart
      gap
      return some (part :: parts)
    else return none) [first]
  return parts.reverse

/-! ### Values -/

/-- Whether a character may stand in a word that is no string. -/
def isWordCharacter (c : Char) : Bool := isBare c || c = '+' || c = '.' || c = ':'

/-- The characters of a word; a date and a time may have a blank between them. -/
def wordHere : Parser (List Char) := do
  let cs ← ahead
  let word := cs.takeWhile isWordCharacter
  match cs.drop word.length with
  | ' ' :: c :: rest =>
    if isDate word && isDigit c then return word ++ ' ' :: (c :: rest).takeWhile isWordCharacter
    else return word
  | _ => return word

/-- A word that is no string. -/
def scalar (range : Range) : Parser Node := do
  let word ← wordHere
  advance word.length
  match scalar? range word with
  | some node => return node
  | none => fail

/-- Items between brackets, the opening one read: separated by commas, of which one may stand
behind the last item. -/
def separated {α : Type} (closing : Char) (item : Parser α) : Parser (List α) := do
  spread
  let items ← repeated (fun (items : List α) => do
    if ← accepts (exact [closing]) then
      return none
    else
      let a ← item
      spread
      if !(← accepts (exact [','])) then ensure (exact [closing])
      spread
      return some (a :: items)) []
  return items.reverse

/-- A pair of a key and a value, with the blanks behind it. -/
def pairWith (value : Parser Placed) : Parser (List Key × Placed) := do
  let path ← keyPath
  exact ['=']
  gap
  let v ← value
  return (path, v)

/-- The table between braces that holds some pairs. -/
def closedTable (pairs : List (List Key × Placed)) : Parser Node := do
  match addPairs pairs [] with
  | some members => return .table .closed members
  | none => fail

/-- A value inside so many levels of brackets that are left. -/
def value (range : Range) : Nat → Parser Placed
  | 0 => fail
  | levels + 1 => do
    let start ← here
    let node ←
      match ← ahead with
      | '"' :: _ | '\'' :: _ => Node.text <$> quotedText
      | '[' :: _ =>
        advance 1
        Node.array <$> separated ']' (value range levels)
      | '\x7b' :: _ =>
        advance 1
        closedTable (← separated '\x7d' (pairWith (value range levels)))
      | _ => scalar range
    return (← spanFrom start, node)

/-! ### Lines -/

/-- The header of a table. -/
def header : Parser Line := do
  let start ← here
  exact ['[']
  let isElement ← accepts (exact ['['])
  gap
  let path ← keyPath
  exact (if isElement then [']', ']'] else [']'])
  let span ← spanFrom start
  return if isElement then .element path span else .table path span

/-- What a line says, if it says anything. -/
def line (range : Range) : Parser (Option Line) := do
  match ← ahead with
  | [] | '#' :: _ | '\n' :: _ | '\r' :: _ => return none
  | '[' :: _ => some <$> header
  | _ => do
    let (path, v) ← pairWith (value range (nestingLimit + 1))
    return some (.pair path v)

/-- The end of a line, behind blanks and a comment. -/
def lineEnd : Parser Unit := do
  gap
  let _ ← attempt comment
  match ← ahead with
  | [] => pure ()
  | _ => lineBreak

/-- The lines of a document. -/
def lines (range : Range) : Parser (List Line) := do
  let _ ← attempt (exact ['\uFEFF'])
  let found ← repeated (fun (found : List Line) => do
    match ← ahead with
    | [] => return none
    | _ =>
      gap
      let here ← line range
      lineEnd
      return some (here.toList ++ found)) []
  return found.reverse

/-- The members of the document that a text is. -/
def document? (range : Range) (text : String) : Option Members := do
  let (found, _) ← lines range (Cursor.ofSource text.toList)
  membersOf found

end FileRoutes.Toml
