import FileRoutes.Script.Grammar.Elements
import FileRoutes.Script.Grammar.Types

/-!
# The grammar as a table

All categories with their forms, and what is worked out from them once: which lexemes a
phrase may start with, which phrases it may start with, and where a symbol may be the first
of a phrase.

No category but the module itself has an empty phrase, so the first symbol of a phrase is
where it starts.

## The model

* `Category.forms` — the forms of a category in a dialect.
* `Entry` — a category, and what its forms start with.
* `Opening` — a way in which a symbol opens a phrase.
* `Table` — what is worked out, and `Dialect.table`, the one of a dialect.
-/

namespace FileRoutes.Script

/-- The forms of a category. -/
def Category.forms (d : Dialect) (c : Category) : List Form :=
  Grammar.moduleForms d c ++ Grammar.statementForms d c ++ Grammar.expressionForms d c ++
    Grammar.operatorForms d c ++ Grammar.functionForms d c ++ Grammar.elementForms d c ++
    Grammar.typingForms d c ++ Grammar.typeForms c

/-- A set of lexemes. -/
abbrev TokenSet := IndexSet

/-- A set of categories. -/
abbrev CategorySet := IndexSet

/-- Whether a set holds a kind of lexeme. -/
def TokenSet.has (s : TokenSet) (t : Token) : Bool := s.contains t.ctorIdx

/-- Whether a set holds a category. -/
def CategorySet.has (s : CategorySet) (c : Category) : Bool := s.contains c.ctorIdx

/-- A way in which a symbol opens a phrase. -/
structure Opening where
  /-- The category of the phrase. -/
  category : Category
  /-- How the form of the phrase is chosen. -/
  manner : Manner
  /-- What is left of the form behind the symbol. -/
  rest : Body
  /-- The lexemes with which that may start. -/
  next : TokenSet
  /-- Whether the phrase may be over behind the symbol. -/
  ends : Bool
deriving Inhabited

/-- What is worked out from a grammar. -/
structure Table where
  /-- The lexemes with which a phrase of a category may start. -/
  firsts : Array TokenSet
  /-- The phrases with which a phrase of a category may start, the category itself included. -/
  corners : Array CategorySet
  /-- What a lexeme opens. -/
  tokenOpenings : Array (List Opening)
  /-- What a phrase of a category opens. -/
  partOpenings : Array (List Opening)

/-- A category, and what its forms start with. -/
structure Entry where
  /-- The category. -/
  category : Category
  /-- The first symbols of its forms, with how the form is chosen and what is left of it. -/
  heads : List (Symbol × Manner × Body)
  /-- The lexemes among the first symbols. -/
  tokens : TokenSet
  /-- The phrases among the first symbols. -/
  parts : CategorySet
deriving Inhabited

namespace Table

/-- The lexemes among some symbols. -/
def tokensOf (symbols : List Symbol) : TokenSet :=
  symbols.foldl (fun s x => match x with | .token t => s.insert t.ctorIdx | .part _ => s) .empty

/-- The phrases among some symbols. -/
def partsOf (symbols : List Symbol) : CategorySet :=
  symbols.foldl (fun s x => match x with | .part c => s.insert c.ctorIdx | .token _ => s) .empty

/-- What the forms of a category start with. -/
def entryOf (d : Dialect) (c : Category) : Entry :=
  let heads := (c.forms d).flatMap fun f => f.body.heads.map fun h => (h.1, f.manner, h.2)
  let symbols := heads.map Prod.fst
  ⟨c, heads, tokensOf symbols, partsOf symbols⟩

/-- All that can be reached from a set of numbers by steps to sets of numbers. -/
def reach (step : Nat → IndexSet) : Nat → (ahead seen : IndexSet) → IndexSet
  | 0, _, seen => seen
  | fuel + 1, ahead, seen =>
    if ahead.isEmpty then seen
    else
      let i := ahead.greatest
      let found := (step i).without seen
      reach step fuel ((ahead.without (.single i)).union found) (seen.union found)

/-- The lexemes with which a body may start, given those of the categories. -/
def firstsOf (firsts : Array TokenSet) (b : Body) : TokenSet :=
  b.heads.foldl (fun s h => match h.1 with
    | .token t => s.insert t.ctorIdx
    | .part c => s.union (firsts.getD c.ctorIdx .empty)) .empty

/-- The openings of a category by one symbol. -/
def openingsBy (firsts : Array TokenSet) (e : Entry) (s : Symbol) : List Opening :=
  e.heads.filterMap fun h =>
    if h.1 = s then some ⟨e.category, h.2.1, h.2.2, firstsOf firsts h.2.2, h.2.2.nullable⟩ else none

/-- The table of a dialect. -/
def ofDialect (d : Dialect) : Table :=
  let entries := Category.all.map (entryOf d)
  let parts := (entries.map Entry.parts).toArray
  let corners := entries.map fun e =>
    let start := IndexSet.single e.category.ctorIdx
    reach (fun j => parts.getD j .empty) Category.count start start
  let firsts := (corners.map fun s =>
    IndexSet.unions ((entries.filter fun e => CategorySet.has s e.category).map Entry.tokens)).toArray
  { firsts
    corners := corners.toArray
    tokenOpenings := (Token.all.map fun t =>
      (entries.filter fun e => e.tokens.has t).flatMap fun e =>
        openingsBy firsts e (.token t)).toArray
    partOpenings := (Category.all.map fun c =>
      (entries.filter fun e => e.parts.has c).flatMap fun e =>
        openingsBy firsts e (.part c)).toArray }

/-- The table of plain scripts. -/
def plain : Table := ofDialect .plain

/-- The table of scripts with types. -/
def typed : Table := ofDialect .typed

/-- The table of scripts with types and elements. -/
def typedMarkup : Table := ofDialect .typedMarkup

/-- What a symbol opens. -/
def openings (table : Table) : Symbol → List Opening
  | .token t => table.tokenOpenings.getD t.ctorIdx []
  | .part c => table.partOpenings.getD c.ctorIdx []

/-- The lexemes with which a body may start. -/
def starts (table : Table) (b : Body) : TokenSet := firstsOf table.firsts b

/-- The phrases with which a body may start. -/
def cornersOf (table : Table) (b : Body) : CategorySet :=
  b.heads.foldl (fun s h => match h.1 with
    | .token _ => s
    | .part c => s.union (table.corners.getD c.ctorIdx .empty)) .empty

end Table

/-- The table of a dialect. -/
def Dialect.table : Dialect → Table
  | .plain => Table.plain
  | .typed => Table.typed
  | .typedMarkup => Table.typedMarkup

end FileRoutes.Script
