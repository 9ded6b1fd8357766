import FileRoutes.Json.Reader

/-!
# Strings in JSON

A string is read up to its closing quote, with its escapes decoded. An escape beyond the
basic plane is a pair of surrogates, and a half of such a pair denotes nothing. A string
whose contents do not matter is skipped: there the halves are not looked at.
-/

namespace FileRoutes.Json

/-- The character that a letter behind a backslash denotes; `u` is not among them. -/
def simpleEscape? : Char → Option Char
  | '"' => some '"'
  | '\\' => some '\\'
  | '/' => some '/'
  | 'b' => some '\x08'
  | 'f' => some '\x0c'
  | 'n' => some '\n'
  | 'r' => some '\r'
  | 't' => some '\t'
  | _ => none

/-- The value of a hexadecimal digit. -/
def hexValue? (c : Char) : Option Nat := (Decimal.digitValue? c).filter (· < 16)

/-- The number of four hexadecimal digits. -/
def unitOf? (a b c d : Char) : Option Nat := do
  return (((← hexValue? a) * 16 + (← hexValue? b)) * 16 + (← hexValue? c)) * 16 + (← hexValue? d)

/-- Whether a unit is the first half of a pair. -/
def isLeading (unit : Nat) : Bool := 0xD800 ≤ unit && unit < 0xDC00

/-- Whether a unit is the second half of a pair. -/
def isTrailing (unit : Nat) : Bool := 0xDC00 ≤ unit && unit < 0xE000

/-- The character that a pair of halves denotes. -/
def pairedCharacter (leading trailing : Nat) : Char :=
  Char.ofNat (0x10000 + (leading - 0xD800) * 0x400 + (trailing - 0xDC00))

/-- Whether a character must be escaped in a string. -/
def isControl (c : Char) : Bool := c < ' '

namespace Reader

/-- The unit that four hexadecimal digits spell. -/
def unit : Reader Nat := do
  let c : Cursor ← get
  if (String.ofList c.rest).utf8ByteSize < 4 then failAfter 4 .endInText
  match c.rest with
  | d₁ :: d₂ :: d₃ :: d₄ :: _ =>
    match unitOf? d₁ d₂ d₃ d₄ with
    | some n =>
      set c.next.next.next.next
      return n
    | none => failAfter 4 .invalidEscape
  | _ => failAfter 4 .invalidEscape

/-- The next character, which the second half of a pair needs. -/
def pairMark (mark : Char) : Reader Unit := do
  match ← peek with
  | none => failHere .endInText
  | some c => if c = mark then skip else failAhead .unfinishedSurrogate

/-- The character that an escape with `u` denotes. -/
def unitEscape : Reader Char := do
  let first ← unit
  if isTrailing first then failHere .loneSurrogate
  else if isLeading first then
    pairMark '\\'
    pairMark 'u'
    let second ← unit
    if isTrailing second then return pairedCharacter first second
    else failHere .loneSurrogate
  else return Char.ofNat first

/-- The letter behind a backslash. -/
def escapeLetter : Reader Char := do
  match ← peek with
  | none => failHere .endInText
  | some c =>
    if c = 'u' ∨ (simpleEscape? c).isSome then
      skip
      return c
    else failAhead .invalidEscape

/-- The character that an escape denotes. -/
def escaped : Reader Char := do
  let letter ← escapeLetter
  match simpleEscape? letter with
  | some c => return c
  | none => unitEscape

/-- The characters of a string up to its closing quote; `fuel` bounds their number. -/
def textCharacters : Nat → Reader (List Char)
  | 0 => failHere .endInText
  | fuel + 1 => do
    match ← peek with
    | none => failHere .endInText
    | some '"' =>
      skip
      return []
    | some '\\' =>
      skip
      let c ← escaped
      return c :: (← textCharacters fuel)
    | some c =>
      if isControl c then failAhead .controlCharacter
      else
        skip
        return c :: (← textCharacters fuel)

/-- A string, its opening quote ahead. -/
def quotedText : Reader String := do
  skip
  return String.ofList (← textCharacters (← stepBound))

/-- Moves over an escape whose character does not matter. -/
def skipEscaped : Reader Unit := do
  if (← escapeLetter) = 'u' then let _ ← unit

/-- Moves over a string up to its closing quote; `fuel` bounds the number of its characters. -/
def skipCharacters : Nat → Reader Unit
  | 0 => failHere .endInText
  | fuel + 1 => do
    match ← peek with
    | none => failHere .endInText
    | some '"' => skip
    | some '\\' =>
      skip
      skipEscaped
      skipCharacters fuel
    | some c =>
      if isControl c then failHere .controlCharacter
      else
        skip
        skipCharacters fuel

/-- Moves over a string, its opening quote ahead. -/
def skipQuoted : Reader Unit := do
  skip
  skipCharacters (← stepBound)

end Reader

end FileRoutes.Json
