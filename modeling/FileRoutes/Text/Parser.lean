/-!
# Reading a source from left to right

A parser moves a cursor over the characters of a source or fails; failing moves nothing,
so an alternative starts where its rival did. Every loop is bounded by the characters that
are left when it starts: a step that goes on has to read at least one.

## The model

* `Span` — a stretch of a source by character offsets.
* `Cursor` — the characters ahead, how many there are, and the offset of the first.
* `Parser` — a function from a cursor to a result and the cursor behind it.
* `attempt`, `lookahead` — success and failure as a value, with and without moving.
* `repeated` — a loop that carries a value and stops when a step says so.
-/

namespace FileRoutes

/-- A stretch of a source, by character offsets. -/
structure Span where
  /-- Offset of the first character. -/
  start : Nat
  /-- Offset behind the last character. -/
  stop : Nat
deriving DecidableEq, Inhabited

/-- The characters of a span. -/
def Span.slice (span : Span) (source : List Char) : List Char :=
  (source.drop span.start).take (span.stop - span.start)

/-- A place in a source. -/
structure Cursor where
  /-- The characters ahead. -/
  rest : List Char
  /-- The number of characters ahead. -/
  left : Nat
  /-- The number of characters behind. -/
  offset : Nat
deriving Inhabited

/-- The start of a source. -/
def Cursor.ofSource (source : List Char) : Cursor := ⟨source, source.length, 0⟩

/-- The cursor `n` characters further on. -/
def Cursor.advance (c : Cursor) (n : Nat) : Cursor :=
  ⟨c.rest.drop n, c.left - n, c.offset + n⟩

/-- A reader of a part of a source. -/
abbrev Parser := StateT Cursor Option

namespace Parser

/-- The reader that accepts nothing. -/
def fail {α : Type} : Parser α := fun _ => none

/-- Goes on only if the condition holds. -/
def require (condition : Bool) : Parser Unit := if condition then pure () else fail

/-- The characters ahead. -/
def ahead : Parser (List Char) := fun c => some (c.rest, c)

/-- The offset of the next character. -/
def here : Parser Nat := fun c => some (c.offset, c)

/-- Moves over `n` characters. -/
def advance (n : Nat) : Parser Unit := fun c => some ((), c.advance n)

/-- The result of a parser if it succeeds; otherwise nothing is read. -/
def attempt {α : Type} (p : Parser α) : Parser (Option α) := fun c =>
  match p c with
  | some (a, c) => some (some a, c)
  | none => some (none, c)

/-- What a parser would read here, without reading it. -/
def lookahead {α : Type} (p : Parser α) : Parser (Option α) := fun c =>
  match p c with
  | some (a, _) => some (some a, c)
  | none => some (none, c)

/-- Whether a parser would succeed here. -/
def succeeds {α : Type} (p : Parser α) : Parser Bool := return (← lookahead p).isSome

/-- Goes on only if a parser would succeed here, without reading. -/
def ensure {α : Type} (p : Parser α) : Parser Unit := do require (← succeeds p)

/-- Reads what a parser accepts, if it does, and says whether it did. -/
def accepts {α : Type} (p : Parser α) : Parser Bool := return (← attempt p).isSome

/-- A loop of at most `fuel` steps; a step that gives nothing ends it. -/
def loop {α : Type} (step : α → Parser (Option α)) : Nat → α → Parser α
  | 0, _ => fail
  | fuel + 1, a => do
    match ← step a with
    | none => return a
    | some b => loop step fuel b

/-- The loop of a step that reads a character each time it goes on. -/
def repeated {α : Type} (step : α → Parser (Option α)) (a : α) : Parser α := fun c =>
  loop step (c.left + 1) a c

/-- The span from an offset to the cursor. -/
def spanFrom (start : Nat) : Parser Span := return ⟨start, ← here⟩

/-- The characters read between two cursors. -/
def between (start : Cursor) : Parser String := fun c =>
  some (String.ofList (start.rest.take (c.offset - start.offset)), c)

/-- Moves over a text if it comes next. -/
def exact (text : List Char) : Parser Unit := fun c =>
  if text.isPrefixOf c.rest then some ((), c.advance text.length) else none

end Parser

end FileRoutes
