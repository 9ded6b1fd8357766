import FileRoutes.Script.Form
import FileRoutes.Script.Parse.Frame

/-!
# Ending or going on

Before a lexeme a form may end, or the lexeme may go on with what is being read, or both.
Of the forms that may end, those that bind most strongly do. Where the lexeme could also go
on with something, the two sides are compared, first by how strongly they bind, then by the
side to which the ending forms lean. What is not decided is done both ways.

## The model

* `Ending` — the end of a form: its category, its symbols and its weight.
* `Choice` — what is done before a lexeme.
* `Choice.make` — the choice between the forms that may end and those that may go on.
* `Outlook` — the lexemes that may come next, and what they would mean.
-/

namespace FileRoutes.Script

/-- How an item takes part in a comparison. -/
def Item.contender (i : Item) : Contender := ⟨i.manner.strength, [i.category]⟩

/-- How the items that end take part in a comparison: by the strength of the last of them and
the categories of all. -/
def endingContender (items : List Item) : Contender :=
  ⟨(items.getLast?.map fun i => i.manner.strength).getD .ordinary, items.map Item.category⟩

/-- An item put among others by the order of categories, behind those of its own. -/
def placed (i : Item) : List Item → List Item
  | [] => [i]
  | j :: items =>
    if i.category.ctorIdx < j.category.ctorIdx then i :: j :: items else j :: placed i items

/-- The items that bind most strongly. -/
def strongest (orders : List (List Rank)) (items : List Item) : List Item :=
  (items.foldl (fun sorted i => placed i sorted) []).foldl
    (fun kept i =>
      if kept = [] then [i]
      else match i.contender.compare orders (endingContender kept) with
        | .gt => [i]
        | .eq => kept ++ [i]
        | .lt => kept) []

/-- The end of a form. -/
structure Ending where
  /-- The category. -/
  category : Category
  /-- The number of symbols. -/
  length : Nat
  /-- What the form counts. -/
  weight : Int
deriving DecidableEq, Inhabited

/-- What is done before a lexeme. -/
structure Choice where
  /-- The forms that end, each in a reading of its own. -/
  endings : List Ending
  /-- Whether the lexeme goes on with what is being read. -/
  goesOn : Bool
deriving DecidableEq, Inhabited

namespace Choice

/-- The choice, given the items that may end and those that may go on. -/
def make (orders : List (List Rank)) (ending going : List Item) : Choice :=
  let kept := strongest orders ending
  let ends : Choice := ⟨(kept.map fun i => ⟨i.category, i.read, i.manner.weight⟩).eraseDups, false⟩
  let both : Choice := { ends with goesOn := true }
  let goes : Choice := ⟨[], true⟩
  if going = [] then ends
  else if kept = [] then goes
  else
    let verdicts := going.map fun i => i.contender.compare orders (endingContender kept)
    match verdicts.contains .gt, verdicts.contains .lt with
    | true, false => goes
    | false, true => ends
    | true, true => both
    | false, false =>
      if kept.all fun i => i.manner.side = some .left then ends
      else if kept.all fun i => i.manner.side = some .right then goes
      else both

end Choice

/-- What may come next, and what it would mean. -/
structure Outlook where
  /-- The items that may end, each with the lexemes that may follow it. -/
  ending : List (Item × TokenSet)
  /-- The items that may go on, each with the lexemes it may go on with. -/
  going : List (Item × TokenSet)
deriving Inhabited

namespace Outlook

/-- What may come next behind a stack of frames. -/
def ofStack (table : Table) (stack : List Frame) : Outlook :=
  let items := match stack with
    | [] => []
    | f :: _ => f.items
  { ending := (items.filter fun i => i.rest.nullable).map fun i => (i, i.followers table stack)
    going := items.map fun i => (i, table.starts i.rest) }

/-- The lexemes that may come next. -/
def allowed (o : Outlook) : TokenSet := IndexSet.unions ((o.ending ++ o.going).map Prod.snd)

/-- The choice before a lexeme. -/
def choice (o : Outlook) (orders : List (List Rank)) (t : Token) : Choice :=
  let items (rows : List (Item × TokenSet)) : List Item :=
    (rows.filter fun r => r.2.has t).map Prod.fst
  Choice.make orders (items o.ending) (items o.going)

end Outlook

end FileRoutes.Script
