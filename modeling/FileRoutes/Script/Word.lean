import FileRoutes.Script.Spacing

/-!
# Words

A word is a run of characters that are no blanks, control characters or punctuation, and it
does not start with a digit. A character of a word may be written as an escape.

## The model

* `isWordPart`, `isWordStart` — the characters of words.
* `wordLength` — the characters of the word that comes next.
* `dashedLength`, `staticGetLength` — longer lexemes that start as words do.
-/

namespace FileRoutes.Script

/-- Punctuation, which no word holds. -/
def isPunctuation (c : Char) : Bool :=
  [':', ';', '\x60', '"', '\'', '@', '#', '.', ',', '|', '^', '&', '<', '=', '>', '+', '-', '*',
    '/', '\\', '%', '?', '!', '~', '(', ')', '[', ']', '\x7b', '\x7d'].contains c

/-- Whether a character may stand inside a word. -/
def isWordPart (c : Char) : Bool := 0x20 ≤ c.toNat && !isGap c && !isPunctuation c

/-- Whether a character may start a word. -/
def isWordStart (c : Char) : Bool := isWordPart c && !c.isDigit

/-- Whether a character is a hexadecimal digit. -/
def isHexDigit (c : Char) : Bool :=
  c.isDigit || ('a' ≤ c && c ≤ 'f') || ('A' ≤ c && c ≤ 'F')

/-- The characters of the escape of a character that comes next, as it may stand in a word. -/
def wordEscapeLength? : List Char → Option Nat
  | '\\' :: 'u' :: '\x7b' :: cs =>
    let digits := cs.takeWhile isHexDigit
    if digits ≠ [] ∧ (cs.drop digits.length).head? = some '\x7d' then some (digits.length + 4)
    else none
  | '\\' :: 'u' :: cs =>
    let digits := cs.take 4
    if digits.length = 4 ∧ digits.all isHexDigit then some 6 else none
  | _ => none

/-- The characters of the rest of a word. -/
def wordRestLength : Nat → List Char → Nat
  | 0, _ => 0
  | _ + 1, [] => 0
  | fuel + 1, c :: cs =>
    if isWordPart c then wordRestLength fuel cs + 1
    else match wordEscapeLength? (c :: cs) with
      | some n => wordRestLength fuel ((c :: cs).drop n) + n
      | none => 0

/-- The characters of the word that comes next; none where no word starts. -/
def wordLength (cs : List Char) : Nat :=
  match cs with
  | [] => 0
  | c :: rest =>
    if isWordStart c then wordRestLength rest.length rest + 1
    else match wordEscapeLength? cs with
      | some n => wordRestLength cs.length (cs.drop n) + n
      | none => 0

/-- Whether a character may stand in a name with hyphens, hyphens apart. -/
def isPlainWordPart (c : Char) : Bool := c.isAlphanum || c == '_' || c == '$'

/-- The characters of the name with hyphens that comes next; none if there is no hyphen. -/
def dashedLength (cs : List Char) : Nat :=
  let start := (cs.takeWhile isPlainWordPart).length
  match cs.head?.any (fun c => !c.isDigit), start, cs.drop start with
  | true, n + 1, '-' :: rest =>
    n + 2 + (rest.takeWhile fun c => isPlainWordPart c || c == '-').length
  | _, _, _ => 0

/-- The characters of `static get` and the blanks up to the end of the last line that holds
nothing else; none if something else is next. -/
def staticGetLength (cs : List Char) : Nat :=
  match cs with
  | 's' :: 't' :: 'a' :: 't' :: 'i' :: 'c' :: rest =>
    let blanks := (rest.takeWhile Text.isSpace).length
    match blanks, rest.drop blanks with
    | n + 1, 'g' :: 'e' :: 't' :: behind =>
      let lines := ((behind.takeWhile Text.isSpace).reverse.dropWhile fun c => c != '\n').length
      if lines = 0 then 0 else 6 + (n + 1) + 3 + lines
    | _, _ => 0
  | _ => 0

end FileRoutes.Script
