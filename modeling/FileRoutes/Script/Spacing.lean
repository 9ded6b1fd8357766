import FileRoutes.Script.Language

/-!
# Blanks, comments and the ends of lines

Between two lexemes stand blanks and comments. A comment may also open as in markup, with
`<!--` or `-->`, wherever no operator can stand.

A statement may end without a semicolon: before a closing brace, at the end of the source,
and at the end of a line whose successor cannot go on with it. Whether it does is decided
from the characters ahead and from what could go on: an operator behind a value, or the
body of a function whose signature was read.

## The model

* `isGap` — the characters between lexemes; `Text.isSpace` is the shorter list that the
  rule of line ends knows.
* `commentLength?`, `markupComment?` — a comment of either kind.
* `startsStatement` — whether a new line starts a new statement.
* `endsPlain`, `endsTyped`, `statementEnds` — whether a statement is over here; `passedOver` —
  how far one looks to find that it is not.
-/

namespace FileRoutes.Script

/-- Whether a character separates lexemes. -/
def isGap (c : Char) : Bool :=
  let n := c.toNat
  Text.isSpace c || n == 0xA0 || n == 0x1680 || (0x2000 ≤ n && n ≤ 0x200B) || n == 0x2028 ||
    n == 0x2029 || n == 0x202F || n == 0x205F || n == 0x2060 || n == 0x3000 || n == 0xFEFF

/-- Whether a character separates lines or paragraphs and nothing else. -/
def isSeparator (c : Char) : Bool := c.toNat == 0x2028 || c.toNat == 0x2029

/-- Whether a character ends a line wherever lines count. -/
def isLineBreak (c : Char) : Bool := c == '\n' || isSeparator c

/-! ### Comments -/

/-- Whether a character ends a comment that runs to the end of its line. -/
def isCommentEnd (c : Char) : Bool := c == '\r' || isLineBreak c

/-- The characters up to and with the end of a block comment, its opening left out. -/
def blockLength? : List Char → Option Nat
  | '*' :: '/' :: _ => some 2
  | _ :: cs => (blockLength? cs).map (· + 1)
  | [] => none

/-- The characters of the comment that comes next. -/
def commentLength? : List Char → Option Nat
  | '/' :: '/' :: cs => some ((cs.takeWhile fun c => !isCommentEnd c).length + 2)
  | '/' :: '*' :: cs => (blockLength? cs).map (· + 2)
  | _ => none

/-- The blanks before a comment that opens as in markup, and its characters, if one comes
next. -/
def markupComment? (cs : List Char) : Option (Nat × Nat) :=
  let blanks := (cs.takeWhile fun c => Text.isSpace c || isSeparator c).length
  let opens : List Char → Bool
    | '<' :: '!' :: '-' :: '-' :: _ | '-' :: '-' :: '>' :: _ => true
    | _ => false
  let rest := cs.drop blanks
  if opens rest then some (blanks, (rest.takeWhile fun c => !isLineBreak c).length) else none

/-! ### The end of a statement -/

/-- What the rule of line ends knows of the place it is asked about. -/
structure Place where
  /-- Whether an operator may stand here, because a value was read. -/
  valueBefore : Bool
  /-- Whether the body of a function may stand here, because its signature was read. -/
  signatureBefore : Bool
deriving DecidableEq, Inhabited

/-- Whether a new line that starts with these characters is a new statement. -/
def startsStatement (d : Dialect) (place : Place) : List Char → Bool
  | '.' :: cs => !d.types && cs.head?.any Char.isDigit
  | '+' :: cs => cs.head? == some '+'
  | '-' :: cs => cs.head? == some '-'
  | '!' :: cs => cs.head? != some '='
  | 'i' :: 'n' :: 's' :: 't' :: 'a' :: 'n' :: 'c' :: 'e' :: 'o' :: 'f' :: cs =>
    cs.head?.any Char.isAlpha
  | 'i' :: 'n' :: cs => cs.head?.any Char.isAlpha
  | '(' :: _ | '[' :: _ => d.types && !place.valueBefore
  | '\x7b' :: _ => !place.signatureBefore
  | c :: _ =>
    !(['\x60', ',', ':', ';', '*', '%', '>', '<', '=', '?', '^', '|', '&', '/'].contains c)
  | [] => true

/-- What stands behind blanks and comments; nothing if a slash stands there that opens no
comment. -/
def behindComments? (d : Dialect) : Nat → List Char → Option (List Char)
  | 0, _ => none
  | fuel + 1, cs =>
    match cs.dropWhile Text.isSpace with
    | '/' :: '/' :: rest =>
      behindComments? d fuel
        (rest.dropWhile fun c => !(c == '\n' || !d.types && isSeparator c))
    | '/' :: '*' :: rest => behindComments? d fuel (rest.drop ((blockLength? rest).getD rest.length))
    | '/' :: _ => none
    | rest => some rest

/-- Whether a new statement starts behind the end of a line. -/
def newLineStarts (d : Dialect) (place : Place) (cs : List Char) : Bool :=
  (behindComments? d (cs.length + 1) cs).any (startsStatement d place)

/-- Whether a statement of a script with types is over before these characters. A brace that
closes ends it, unless a type follows where no operator could. -/
def endsTyped (d : Dialect) (place : Place) : List Char → Bool
  | [] => true
  | c :: cs =>
    if c = '\x7d' then place.valueBefore || (cs.dropWhile Text.isSpace).head? != some ':'
    else if c = '\n' then newLineStarts d place cs
    else Text.isSpace c && endsTyped d place cs

/-- What stands behind the comments that come next, and whether they hold or reach the end of
a line. -/
def behindHere? : Nat → (broken : Bool) → List Char → Option (Bool × List Char)
  | 0, _, _ => none
  | fuel + 1, broken, cs =>
    match cs.dropWhile Text.isSpace with
    | '/' :: '/' :: rest => behindHere? fuel broken (rest.dropWhile fun c => !isLineBreak c)
    | '/' :: '*' :: rest =>
      match blockLength? rest with
      | none => some (true, [])
      | some n =>
        let broken := broken || (rest.take n).any isLineBreak
        if (rest.drop n).head? = some '/' then behindHere? fuel broken (rest.drop n)
        else some (broken, rest.drop n)
    | '/' :: _ => none
    | rest => some (true, rest)

/-- Whether a statement of a plain script is over before these characters. Where no operator
could stand, a comment that holds or reaches the end of a line ends it. -/
def endsPlain (d : Dialect) (place : Place) : Nat → List Char → Bool
  | 0, _ => false
  | fuel + 1, cs =>
    let onwards : List Char → Bool
      | [] => false
      | c :: rest =>
        if c = '\x7d' then true
        else if isLineBreak c then newLineStarts d place rest
        else Text.isSpace c && endsPlain d place fuel rest
    match cs with
    | [] => true
    | '/' :: _ =>
      match behindHere? (cs.length + 1) false cs with
      | none => false
      | some (broken, rest) =>
        (broken && !place.valueBefore && rest.head? != some ',' && rest.head? != some '=') ||
          onwards rest
    | _ => onwards cs

/-- The characters that are passed over where a statement is found not to be over, no comment
among them: blanks, and what has to be read to find that the next line goes on. -/
def passedOver (d : Dialect) (cs : List Char) : Nat :=
  let blanks := cs.takeWhile Text.isSpace
  let (broken, gap) := match cs.drop blanks.length with
    | c :: rest =>
      if !d.types && isSeparator c then
        (true, blanks.length + 1 + (rest.takeWhile Text.isSpace).length)
      else (blanks.contains '\n', blanks.length)
    | [] => (false, blanks.length)
  let read := match cs.drop gap with
    | '/' :: _ => if broken || !d.types then 1 else 0
    | '.' :: _ => if broken && !d.types then 1 else 0
    | '+' :: _ | '-' :: _ => if broken then 1 else 0
    | 'i' :: 'n' :: 's' :: 't' :: 'a' :: 'n' :: 'c' :: 'e' :: 'o' :: 'f' :: _ =>
      if broken then 10 else 0
    | 'i' :: 'n' :: _ => if broken then 2 else 0
    | _ => 0
  gap + read

/-- Whether a statement is over before these characters. -/
def statementEnds (d : Dialect) (place : Place) (cs : List Char) : Bool :=
  if d.types then endsTyped d place cs else endsPlain d place (cs.length + 1) cs

end FileRoutes.Script
