import FileRoutes.Decimal.Digits
import FileRoutes.Text.Parser

/-!
# Strings in TOML

A string stands between single or double quotes, or between three of either, where it may
go over several lines. Between double quotes a backslash starts an escape; in a string of
several lines a backslash at the end of a line takes back the blanks around the break.
-/

namespace FileRoutes.Toml

open Parser

/-- Whether a character may not stand in a text as itself. -/
def isControl (c : Char) : Bool := (c < ' ' && c ≠ '\t') || c = '\x7f'

/-- Whether a character is a blank inside a line. -/
def isGap (c : Char) : Bool := c == ' ' || c == '\t'

/-- The number of characters of the line break that comes next; zero where there is none. -/
def breakLength : List Char → Nat
  | '\n' :: _ => 1
  | '\r' :: '\n' :: _ => 2
  | _ => 0

/-- Moves over a line break. -/
def lineBreak : Parser Unit := do
  let n := breakLength (← ahead)
  require (n ≠ 0)
  advance n

/-- Moves over blanks inside a line. -/
def gap : Parser Unit := do advance ((← ahead).takeWhile isGap).length

/-- The character with a hexadecimal number of so many digits. -/
def numbered (digits : Nat) : Parser (List Char) := do
  let ds := (← ahead).take digits
  let n := Decimal.valueOf 16 ds
  require (ds.length = digits && ds.all fun c => (Decimal.digitValue? c).any (· < 16))
  if h : n.isValidChar then
    advance digits
    return [Char.ofNatAux n h]
  else fail

/-- The character that an escape denotes, the backslash being read. -/
def escaped : Parser (List Char) := do
  let letter := (← ahead).head?
  advance 1
  match letter with
  | some 'b' => return ['\x08']
  | some 't' => return ['\t']
  | some 'n' => return ['\n']
  | some 'f' => return ['\x0c']
  | some 'r' => return ['\r']
  | some 'e' => return ['\x1b']
  | some '"' => return ['"']
  | some '\\' => return ['\\']
  | some 'x' => numbered 2
  | some 'u' => numbered 4
  | some 'U' => numbered 8
  | _ => fail

/-- A break behind a backslash, with the blanks and breaks behind it. -/
def joinedLines : Parser (List Char) := do
  gap
  lineBreak
  repeated (fun (_ : List Char) => do
    match ← ahead with
    | c :: _ =>
      if isGap c then
        advance 1
        return some []
      else if ← accepts lineBreak then return some []
      else return none
    | [] => return none) []

/-- What a backslash and the characters behind it denote; `manyLines` tells whether the string
may go over several lines. -/
def escape (manyLines : Bool) : Parser (List Char) := do
  if manyLines then
    match ← attempt joinedLines with
    | some cs => return cs
    | none => escaped
  else escaped

/-- The next character of a string between single quotes of this kind, or what an escape of it
denotes; nothing at a quote. -/
def lineCharacter (quote : Char) : Parser (Option (List Char)) := do
  match ← ahead with
  | [] => fail
  | c :: _ =>
    if c = quote then return none
    else if c = '\\' ∧ quote = '"' then
      advance 1
      return some (← escape false)
    else
      require (!isControl c)
      advance 1
      return some [c]

/-- A string on one line, its opening quote read. -/
def lineText (quote : Char) : Parser String := do
  let parts ← repeated (fun parts => do
    return (← lineCharacter quote).map fun cs => cs :: parts) []
  advance 1
  return String.ofList parts.reverse.flatten

/-- The next characters of a string between three quotes; nothing at the closing quotes. -/
def blockCharacters (quote : Char) : Parser (Option (List Char)) := do
  let cs ← ahead
  match cs with
  | [] => fail
  | c :: _ =>
    if c = quote then
      if cs.take 3 = [quote, quote, quote] then return none
      else
        advance 1
        return some [c]
    else if c = '\\' ∧ quote = '"' then
      advance 1
      return some (← escape true)
    else
      let n := breakLength cs
      require (n ≠ 0 || !isControl c)
      advance (max n 1)
      return some (cs.take (max n 1))

/-- A string of several lines, its opening quotes read. Up to two quotes may stand before the
closing ones. -/
def blockText (quote : Char) : Parser String := do
  let _ ← attempt lineBreak
  let parts ← repeated (fun parts => do
    return (← blockCharacters quote).map fun cs => cs :: parts) []
  let quotes := min 5 ((← ahead).takeWhile (· == quote)).length
  advance quotes
  return String.ofList (parts.reverse.flatten ++ List.replicate (quotes - 3) quote)

/-- A string, its first quote ahead. -/
def quotedText : Parser String := do
  match ← ahead with
  | a :: b :: c :: _ =>
    if a = b ∧ b = c then
      advance 3
      blockText a
    else
      advance 1
      lineText a
  | a :: _ =>
    advance 1
    lineText a
  | [] => fail

end FileRoutes.Toml
