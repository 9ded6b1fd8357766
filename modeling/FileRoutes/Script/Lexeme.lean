import FileRoutes.Script.Grammar.Table
import FileRoutes.Script.Numeral
import FileRoutes.Script.Quoted

/-!
# Lexemes

Which lexeme comes next depends on which lexemes may come: a slash starts a regular
expression only where an expression may start, and a word is a keyword only where the
grammar expects it. Of the lexemes that may come, the longest one is taken.

Some lexemes are looked for before all others: text in templates and between tags, the end
of a statement, and the question mark of a conditional expression.

## The model

* `Found` — what comes next: a lexeme behind some blanks, or a comment.
* `Found.early?` — the lexemes that are looked for first.
* `Found.next?` — what comes next, given the lexemes that may come.
-/

namespace FileRoutes.Script

/-- What comes next in a source. -/
inductive Found where
  /-- A lexeme: its kind, the blanks before it and its characters. -/
  | lexeme (token : Token) (blanks length : Nat)
  /-- A comment: the blanks before it and its characters. -/
  | comment (blanks length : Nat)
  /-- A comment that opens as in markup: the blanks before it and its characters. -/
  | note (blanks length : Nat)
deriving DecidableEq, Inhabited

namespace Found

/-- The number of characters of the text between two tags that comes next. Blanks that start
with the end of a line are no text. -/
def elementTextLength (cs : List Char) : Nat :=
  let text := cs.takeWhile fun c => !(['<', '>', '\x7b', '\x7d', '&'].contains c)
  if text.head? = some '\n' ∧ text.all Text.isSpace then 0 else text.length

/-- Whether the question mark of a conditional expression comes next. It is not doubled, and no
point follows that stands for access to a member. With types, it is not the mark of what may
be missing either. -/
def isConditionalMark (d : Dialect) (cs : List Char) : Bool :=
  let isFraction (rest : List Char) : Bool := rest.head?.any Char.isDigit
  match cs with
  | '?' :: '?' :: _ => false
  | '?' :: '.' :: rest => !d.types && isFraction rest
  | '?' :: rest =>
    !d.types ||
      match rest.dropWhile Text.isSpace with
      | ':' :: _ | ')' :: _ | ',' :: _ => false
      | '.' :: more => isFraction more
      | _ => true
  | _ => false

/-- The lexemes and comments that are looked for before all others. -/
def early? (d : Dialect) (allowed : TokenSet) (cs : List Char) : Option Found :=
  let conditional (blanks : Nat) : Option Found :=
    if allowed.has .conditionalMark && isConditionalMark d (cs.drop blanks) then
      some (lexeme .conditionalMark blanks 1)
    else none
  if allowed.has .templateText then
    match templatePlain cs with
    | 0 => none
    | n => some (lexeme .templateText 0 n)
  else if allowed.has .elementText ∧ elementTextLength cs ≠ 0 then
    some (lexeme .elementText 0 (elementTextLength cs))
  else if allowed.has .statementEnd ∨ allowed.has .signatureEnd then
    if statementEnds d ⟨allowed.has .orOr, allowed.has .signatureEnd⟩ cs then
      some (lexeme .statementEnd 0 0)
    else conditional (passedOver d cs)
  else if allowed.has .conditionalMark then conditional (cs.takeWhile Text.isSpace).length
  else if allowed.has .orOr ∨ allowed.has .regexRest then none
  else (markupComment? cs).map fun (blanks, length) => note blanks length

/-- The longest mark that may come here. -/
def mark? (allowed : TokenSet) : List Char → Option (Token × Nat)
  | [] => none
  | c :: cs =>
    ((marksFrom c).find? fun m => allowed.has m.2 && m.1.isPrefixOf cs).map fun m =>
      (m.2, m.1.length + 1)

/-- The word that comes next, or the lexeme that starts like it and is longer. -/
def word? (allowed : TokenSet) (cs : List Char) : Option (Token × Nat) :=
  let n := wordLength cs
  if allowed.has .dashedName ∧ n < dashedLength cs then some (.dashedName, dashedLength cs)
  else if allowed.has .staticGet ∧ n < staticGetLength cs then some (.staticGet, staticGetLength cs)
  else if n = 0 then none
  else
    match Token.ofWord? (String.ofList (cs.take n)) with
    | some t => some (if allowed.has t then t else .name, n)
    | none => some (.name, n)

/-- The lexeme that starts with the next character. -/
def shaped? (allowed : TokenSet) (cs : List Char) : Option (Token × Nat) :=
  let sized (t : Token) (length : Nat) : Option (Token × Nat) :=
    if allowed.has t ∧ length ≠ 0 then some (t, length) else none
  match cs with
  | [] => none
  | c :: rest =>
    if c = '"' ∨ c = '\'' then
      (sized .attributeText (attributeLength cs)).or (sized .text (quotedLength cs))
    else if c = '#' then
      if allowed.has .hashBang ∧ rest.head? = some '!' then
        some (.hashBang, (cs.takeWhile fun c => c != '\n').length)
      else
        match wordLength rest with
        | 0 => none
        | n => sized .privateName (n + 1)
    else
      (sized .number (numeralLength cs)).or <|
        (if c = '&' then sized .reference (referenceLength cs) else none).or <|
        (mark? allowed cs).or (word? allowed cs)

/-- What comes next in a source, given the lexemes that may come. -/
def next? (d : Dialect) (allowed : TokenSet) (cs : List Char) : Option Found :=
  (early? d allowed cs).or <|
    match cs, allowed.has .escape, allowed.has .regexRest with
    | '\\' :: rest, true, _ => (escapeLength? rest).map fun n => lexeme .escape 0 (n + 1)
    | _, _, true =>
      match regexRestLength cs with
      | 0 => none
      | n => some (lexeme .regexRest 0 n)
    | _, _, false =>
      let blanks := (cs.takeWhile isGap).length
      let rest := cs.drop blanks
      if rest = [] then
        if allowed.has .endOfSource then some (lexeme .endOfSource blanks 0) else none
      else match commentLength? rest with
        | some n => some (comment blanks n)
        | none => (shaped? allowed rest).map fun (t, n) => lexeme t blanks n

end Found

end FileRoutes.Script
