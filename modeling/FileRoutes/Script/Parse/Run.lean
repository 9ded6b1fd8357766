import FileRoutes.Script.Grammar.Ranks
import FileRoutes.Script.Lexeme
import FileRoutes.Script.Parse.Choice

/-!
# Readings

Several readings of a source go on side by side where what was read so far can be taken in
several ways. All of them move on together, each with the lexemes that may come next in its
own place. A reading that finds no such lexeme is given up. Two readings that stand at the
same place with the same frames become one: the one with the greater weight stays.

## The model

* `Reading` — one way to read the source up to some place.
* `Reading.step` — a reading moved over what comes next, and the readings that part from it.
* `readings` — the runs of all readings, up to the ends of the source.
* `Phrase.ofSource?` — the phrase that a source is, read in the way with the greatest
  weight.
-/

namespace FileRoutes.Script

/-- One way to read a source up to some place. -/
structure Reading where
  /-- The frames, the last one first. -/
  stack : List Frame
  /-- The characters ahead. -/
  rest : List Char
  /-- The number of characters read. -/
  offset : Nat
  /-- Whether the last lexeme had no characters and no blanks before it. -/
  stalled : Bool
  /-- What counts for or against this way. -/
  weight : Int
deriving Inhabited

/-- What becomes of a reading. -/
inductive Move where
  /-- It goes on. -/
  | onwards (r : Reading)
  /-- The source is over, and this is what it is. -/
  | finished (source : Phrase) (weight : Int)
  /-- It is given up. -/
  | stuck
deriving Inhabited

/-- A lexeme where it stands. -/
structure Lexeme where
  /-- Its kind. -/
  token : Token
  /-- Where it stands. -/
  span : Span
  /-- Its characters. -/
  written : List Char
  /-- The characters behind it. -/
  rest : List Char
deriving Inhabited

namespace Reading

/-- What may come next where the reading stands. -/
def outlook (table : Table) (r : Reading) : Outlook := Outlook.ofStack table r.stack

/-- The reading with a form ended: its symbols become one phrase. Notes behind the last symbol
stay behind the phrase. -/
def ended (table : Table) (r : Reading) (e : Ending) : Reading :=
  match r.stack.take e.length, r.stack.drop e.length with
  | last :: earlier, base :: below =>
    let parts := earlier.reverse.flatMap Frame.phrases ++ last.phrases.take 1
    let phrase := Phrase.group e.category (Phrase.spanOf parts) parts
    { r with
      stack := base.enter table (.part e.category) (phrase :: last.phrases.drop 1) :: base :: below
      weight := r.weight + e.weight }
  | _, _ => r

/-- The reading moved over a lexeme. -/
def shifted (table : Table) (r : Reading) (t : Token) (l : Lexeme) : Reading :=
  match r.stack with
  | [] => r
  | f :: below =>
    { stack := f.enter table (.token t) [.lexeme t l.span l.written] :: f :: below
      rest := l.rest
      offset := l.span.stop
      stalled := l.span.stop == r.offset
      weight := r.weight }

/-- The reading with a note put behind its last symbol. -/
def noted (r : Reading) (note : Phrase) : Reading :=
  match r.stack with
  | [] => r
  | f :: below => { r with stack := { f with phrases := f.phrases ++ [note] } :: below }

/-- What becomes of a reading before a lexeme: the readings that part from it with a form
ended, and the reading itself. A keyword that cannot come here is taken as a name. -/
def settle (d : Dialect) (l : Lexeme) :
    Nat → Token → Reading → Outlook → List Reading × Move
  | 0, _, _, _ => ([], .stuck)
  | fuel + 1, t, r, outlook =>
    let isKeyword := Token.ofWord? (String.ofList l.written) = some t
    let t := if !outlook.allowed.has t && isKeyword then .name else t
    let choice := outlook.choice d.orders t
    let readings := choice.endings.map (r.ended d.table)
    if choice.goesOn then (readings, .onwards (r.shifted d.table t l))
    else if choice.endings.any fun e => e.category = .program then
      let parts := r.stack.reverse.flatMap Frame.phrases
      ([], .finished (.group .program (Phrase.spanOf parts) parts) r.weight)
    else match readings.getLast? with
      | none => ([], .stuck)
      | some last =>
        let (others, move) := settle d l fuel t last (last.outlook d.table)
        (readings.dropLast ++ others, move)

/-- A reading moved over what comes next, and the readings that part from it. -/
def step (d : Dialect) (r : Reading) : List Reading × Move :=
  let past (n : Nat) : Reading :=
    { r with rest := r.rest.drop n, offset := r.offset + n, stalled := false }
  let outlook := r.outlook d.table
  match Found.next? d outlook.allowed r.rest with
  | none => ([], .stuck)
  | some (.comment blanks length) => ([], .onwards (past (blanks + length)))
  | some (.note blanks length) =>
    let start := r.offset + blanks
    ([], .onwards ((past (blanks + length)).noted (.note ⟨start, start + length⟩)))
  | some (.lexeme token blanks length) =>
    let start := r.offset + blanks
    let behind := r.rest.drop blanks
    let lexeme : Lexeme :=
      ⟨token, ⟨start, start + length⟩, behind.take length, behind.drop length⟩
    settle d lexeme (Category.count * (r.stack.length + 1)) token r outlook

/-- Whether two readings stand at the same place with the same frames. -/
def meets (r s : Reading) : Bool :=
  r.offset == s.offset && r.stalled == s.stalled &&
    r.stack.length == s.stack.length &&
    (r.stack.zip s.stack).all fun (f, g) => f.items == g.items

/-- A reading put among others; of two that meet, the one with the greater weight stays, in
the place of the earlier one. -/
def joined (r : Reading) : List Reading → List Reading
  | [] => [r]
  | s :: others =>
    if r.meets s then (if s.weight < r.weight then r else s) :: others else s :: joined r others

end Reading

/-- The ends of all readings. The readings that stand at `offset` are moved on, in order; the
others wait in `moved`, the last one first. -/
def readings (d : Dialect) :
    Nat → (offset : Nat) → (waiting moved : List Reading) → List (Phrase × Int)
  | 0, _, _, _ => []
  | _ + 1, _, [], [] => []
  | fuel + 1, _, [], moved =>
    let next := moved.reverse.foldl (fun kept r => r.joined kept) []
    readings d fuel ((next.map Reading.offset).min?.getD 0) next []
  | fuel + 1, offset, r :: waiting, moved =>
    if offset < r.offset then readings d fuel offset waiting (r :: moved)
    else
      let (parted, move) := r.step d
      match move with
      | .onwards s => readings d fuel offset (waiting ++ parted) (s :: moved)
      | .finished source weight =>
        (source, weight) :: readings d fuel offset (waiting ++ parted) moved
      | .stuck => readings d fuel offset (waiting ++ parted) moved

/-- The phrase with the greatest weight, the first of those. -/
def weightiest : List (Phrase × Int) → Option Phrase
  | [] => none
  | (p, w) :: others =>
    some (others.foldl (fun best o => if best.2 < o.2 then o else best) (p, w)).1

/-- The phrase that a source is in a dialect. No source holds the character with the number
zero. -/
def Phrase.ofSource? (d : Dialect) (source : List Char) : Option Phrase :=
  if source.contains '\x00' then none
  else
    weightiest (readings d (4096 * (source.length + 1)) 0 [⟨[Frame.start d], source, 0, false, 0⟩] [])

end FileRoutes.Script
