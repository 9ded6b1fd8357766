import FileRoutes.Script.Tree
import FileRoutes.Script.Word

/-!
# Quoted text

What stands between two quotes falls into maximal runs of plain characters and escape
sequences. A quote, a backslash and the end of a line are never plain; blanks and comments
that start at the end of a line are passed over. In a template the ends of lines are plain,
and `${` opens a hole.

The text of an attribute knows no escapes but characters written by name or number, and a
regular expression ends at the first slash that is neither escaped nor between brackets.

## The model

* `escapeLength?` — the characters of the escape sequence whose backslash was just read.
* `quotedParts?` — the parts of the text up to its closing quote, and the characters
  behind it.
* `templatePlain`, `attributeLength`, `regexRestLength` — the other kinds of text.
-/

namespace FileRoutes.Script

/-! ### Texts between quotes -/

/-- Whether a character is an octal digit. -/
def isOctalDigit (c : Char) : Bool := '0' ≤ c && c ≤ '7'

/-- The length of a run of exactly `n` hexadecimal digits. -/
def hexLength? (n : Nat) (cs : List Char) : Option Nat :=
  if (cs.take n).length = n ∧ (cs.take n).all isHexDigit then some n else none

/-- The characters of an escape sequence, its backslash left out: one character, up to three
octal digits, `x` or `u` with its digits, or the end of a line. A question mark is taken
together with the end of a line behind it. -/
def escapeLength? : List Char → Option Nat
  | [] => none
  | 'x' :: cs => (hexLength? 2 cs).map (· + 1)
  | 'u' :: '\x7b' :: cs =>
    let digits := cs.takeWhile isHexDigit
    if digits ≠ [] ∧ (cs.drop digits.length).head? = some '\x7d' then some (digits.length + 3)
    else none
  | 'u' :: cs => (hexLength? 4 cs).map (· + 1)
  | c :: cs =>
    if (c = '\r' ∨ c = '?') ∧ cs.head?.any isLineBreak then some 2
    else if isOctalDigit c then some (((c :: cs).take 3).takeWhile isOctalDigit).length else some 1

/-- Whether a character may stand unescaped between these quotes. -/
def isPlain (quote c : Char) : Bool := c != quote && c != '\\' && c != '\r' && c != '\n'

/-- Puts a plain character in front, joined to the plain characters it meets. -/
def TextPart.consPlain (c : Char) : List TextPart → List TextPart
  | .plain w :: parts => .plain (c :: w) :: parts
  | parts => .plain [c] :: parts

/-- The parts of a text up to its closing quote, and the characters behind the quote. Blanks
from the end of a line on are passed over, and only a comment or the quote may follow. -/
def quotedParts? (quote : Char) : Nat → List Char → Option (List TextPart × List Char)
  | 0, _ => none
  | _ + 1, [] => none
  | fuel + 1, c :: cs =>
    if c = quote then some ([], cs)
    else if c = '\\' then do
      let n ← escapeLength? cs
      let (parts, rest) ← quotedParts? quote fuel (cs.drop n)
      return (.escape (cs.take n) :: parts, rest)
    else if isPlain quote c then do
      let (parts, rest) ← quotedParts? quote fuel cs
      return (TextPart.consPlain c parts, rest)
    else
      let behind := cs.dropWhile isGap
      match commentLength? behind with
      | some n => quotedParts? quote fuel (behind.drop n)
      | none => if behind.head? = some quote then some ([], behind.drop 1) else none

/-- A part as it is written in the source; a hole is left open. -/
def TextPart.written : TextPart → List Char
  | .plain w => w
  | .escape body => '\\' :: body
  | .hole _ => []

/-- The characters of a text with its quotes; none if no text comes next. -/
def quotedLength (cs : List Char) : Nat :=
  match cs with
  | quote :: rest =>
    match quotedParts? quote (rest.length + 1) rest with
    | some (_, behind) => cs.length - behind.length
    | none => 0
  | [] => 0

/-! ### Templates -/

/-- The number of plain characters of a template that come next. -/
def templatePlain : List Char → Nat
  | '$' :: '\x7b' :: _ | '\x60' :: _ | '\\' :: _ | [] => 0
  | _ :: cs => templatePlain cs + 1

/-! ### Attributes -/

/-- The characters of a reference to a character, by name or by number; none if there is no
reference. -/
def referenceLength (cs : List Char) : Nat :=
  let closed (before : Nat) (digits : List Char) (most : Nat) (rest : List Char) : Nat :=
    if digits.length ≠ 0 ∧ digits.length ≤ most ∧ (rest.drop digits.length).head? = some ';' then
      before + digits.length + 1
    else 0
  match cs with
  | '&' :: '#' :: 'x' :: rest | '&' :: '#' :: 'X' :: rest =>
    closed 3 (rest.takeWhile isHexDigit) 6 rest
  | '&' :: '#' :: rest => closed 2 (rest.takeWhile Char.isDigit) 5 rest
  | '&' :: rest => closed 1 (rest.takeWhile Char.isAlpha) 30 rest
  | _ => 0

/-- The number of plain characters of an attribute that come next. An ampersand is plain
together with a character behind it that starts no reference. -/
def attributePlain (quote : Char) : List Char → Nat
  | '&' :: c :: cs => if c = '#' ∨ c.isAlpha then 0 else attributePlain quote cs + 2
  | c :: cs => if c = quote ∨ c = '&' then 0 else attributePlain quote cs + 1
  | [] => 0

/-- The characters of the text of an attribute up to and with its closing quote. At the start
of the text and behind a reference stands a comment that opens as in markup, or one that is
longer than the plain characters before the next reference. -/
def attributeRest? (quote : Char) : Nat → List Char → Option Nat
  | 0, _ => none
  | fuel + 1, cs =>
    let past (n : Nat) : Option Nat := (attributeRest? quote fuel (cs.drop n)).map (· + n)
    match markupComment? cs with
    | some (blanks, n) => past (blanks + n)
    | none =>
      let plain := attributePlain quote cs
      let rest := cs.drop plain
      if rest.head? = some quote then some (plain + 1)
      else
        let comment := (commentLength? cs).getD 0
        let reference := referenceLength rest
        if plain < comment then past comment
        else if reference = 0 then none
        else past (plain + reference)

/-- The characters of the text of an attribute with its quotes; none if there is none. -/
def attributeLength (cs : List Char) : Nat :=
  match cs with
  | quote :: rest => ((attributeRest? quote (rest.length + 1) rest).map (· + 1)).getD 0
  | [] => 0

/-! ### Regular expressions -/

/-- The characters of a regular expression between brackets, its opening bracket left out. -/
def bracketLength? : List Char → Option Nat
  | '\\' :: c :: cs => if c = '\n' then none else (bracketLength? cs).map (· + 2)
  | ']' :: _ => some 1
  | c :: cs => if c = '\n' then none else (bracketLength? cs).map (· + 1)
  | [] => none

/-- The number of characters of the pattern of a regular expression that come next. -/
def patternLength : Nat → List Char → Nat
  | 0, _ => 0
  | fuel + 1, cs =>
    match cs with
    | '\\' :: c :: rest => if c = '\n' then 0 else patternLength fuel rest + 2
    | '[' :: rest =>
      match bracketLength? rest with
      | some n => patternLength fuel (rest.drop n) + (n + 1)
      | none => 0
    | '/' :: _ | '\n' :: _ | '\\' :: _ | [] => 0
    | _ :: rest => patternLength fuel rest + 1

/-- The blanks and comments that come next, if the last of them is a comment. -/
def leadLength : Nat → List Char → Nat
  | 0, _ => 0
  | fuel + 1, cs =>
    let blanks := (cs.takeWhile isGap).length
    match commentLength? (cs.drop blanks) with
    | some n => blanks + n + leadLength fuel (cs.drop (blanks + n))
    | none => 0

/-- The blanks and comments between a pattern and the slash that closes it. The slash stands at
the pattern or at a comment. -/
def closingGap? : Nat → List Char → Option Nat
  | 0, _ => none
  | fuel + 1, cs =>
    if cs.head? = some '/' then some 0
    else
      let blanks := (cs.takeWhile isGap).length
      match commentLength? (cs.drop blanks) with
      | some n => (closingGap? fuel (cs.drop (blanks + n))).map (· + (blanks + n))
      | none => none

/-- The characters of the rest of a regular expression behind its first slash; none if it is
none. Comments may stand before the pattern, behind it from the end of the line on, and
before the flags, which stand at the slash or at a comment. The flags are not followed by
another character of a word. -/
def regexRestLength (cs : List Char) : Nat :=
  let lead := leadLength cs.length cs
  let pattern := patternLength cs.length (cs.drop lead)
  match closingGap? (cs.length + 1) (cs.drop (lead + pattern)) with
  | none => 0
  | some gap =>
    let closed := lead + pattern + gap + 1
    let tail := cs.drop closed
    let flagsAt (n : Nat) : Nat := ((tail.drop n).takeWhile fun c => 'a' ≤ c && c ≤ 'z').length
    let behind := leadLength tail.length tail
    if pattern = 0 then 0
    else if flagsAt behind = 0 then closed
    else if flagsAt behind < wordLength (tail.drop behind) then 0
    else closed + behind + flagsAt behind

end FileRoutes.Script
