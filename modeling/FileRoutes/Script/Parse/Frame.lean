import FileRoutes.Script.Grammar.Table
import FileRoutes.Script.Phrase

/-!
# Frames

While a source is read, a stack of frames says what was read and what it may be part of. A
frame is entered by reading one symbol; its items are the forms that are being read and
what is left of them. The frames below are the symbols before.

No set of lexemes is kept for the place behind a phrase. Where a phrase ends, the lexemes
that may follow it are found by going down the stack: the phrase becomes part of larger
ones in the frame it started in, and where one of these ends too, the search goes on in the
frame that one started in.

## The model

* `Item` — a form that is being read.
* `Frame` — the items after a symbol, and the phrases that may start behind it.
* `Frame.enter` — the frame behind one more symbol.
* `followers` — the lexemes that may follow a phrase.
-/

namespace FileRoutes.Script

/-- A form that is being read. -/
structure Item where
  /-- The category of the form. -/
  category : Category
  /-- The number of symbols read of it. -/
  read : Nat
  /-- What is left of it. -/
  rest : Body
  /-- How it is chosen. -/
  manner : Manner
deriving DecidableEq, Inhabited

/-- What a symbol was read for. -/
structure Frame where
  /-- The forms that are being read. -/
  items : List Item
  /-- The categories of the phrases that may start behind the symbol. -/
  opens : CategorySet
  /-- The phrase that was read, and the notes behind it. -/
  phrases : List Phrase
deriving Inhabited

namespace Frame

/-- The frame of some items. -/
def ofItems (table : Table) (items : List Item) (phrases : List Phrase) : Frame :=
  ⟨items, IndexSet.unions (items.map fun i => table.cornersOf i.rest), phrases⟩

/-- The frame before the first symbol of a module. -/
def start (d : Dialect) : Frame :=
  ofItems d.table (Category.program.forms d |>.map fun f => ⟨.program, 0, f.body, f.manner⟩) []

/-- The frame behind one more symbol, read as the given phrases. -/
def enter (table : Table) (f : Frame) (s : Symbol) (phrases : List Phrase) : Frame :=
  let goingOn := f.items.flatMap fun i =>
    i.rest.heads.filterMap fun h =>
      if h.1 = s then some { i with read := i.read + 1, rest := h.2 } else none
  let starting := (table.openings s).filterMap fun o =>
    if f.opens.has o.category then some ⟨o.category, 1, o.rest, o.manner⟩ else none
  ofItems table (goingOn ++ starting).eraseDups phrases

/-- All phrases that are over in a frame when one of the given ones is, as long as they start
in it, and the lexemes that may follow them. -/
def climb (table : Table) (opens : CategorySet) :
    Nat → (ahead done : CategorySet) → TokenSet → CategorySet × TokenSet
  | 0, _, done, next => (done, next)
  | fuel + 1, ahead, done, next =>
    if ahead.isEmpty then (done, next)
    else
      let i := ahead.greatest
      let openings := (table.partOpenings.getD i []).filter fun o => opens.has o.category
      let ended := openings.foldl
        (fun s o => if o.ends then s.insert o.category.ctorIdx else s) IndexSet.empty
      let found := ended.without done
      climb table opens fuel ((ahead.without (.single i)).union found) (done.union found)
        (openings.foldl (fun s o => s.union o.next) next)

end Frame

/-- Marks a category in one of a row of sets. -/
def markAt : Nat → Category → List CategorySet → List CategorySet
  | 0, c, [] => [.single c.ctorIdx]
  | 0, c, s :: sets => s.insert c.ctorIdx :: sets
  | n + 1, c, [] => .empty :: markAt n c []
  | n + 1, c, s :: sets => s :: markAt n c sets

/-- The lexemes that may follow some phrases: the sets say which of them started in the top
frame, in the one below it, and so on. -/
def followers (table : Table) : List Frame → List CategorySet → TokenSet
  | [], _ | _, [] => .empty
  | f :: below, here :: deeper =>
    if here.isEmpty then followers table below deeper
    else
      let (done, next) := Frame.climb table f.opens Category.count here here .empty
      let behind := f.items.flatMap fun i =>
        (i.rest.heads.filter fun h => match h.1 with
          | .part c => done.has c
          | .token _ => false).map fun h => { i with rest := h.2 }
      let ended := behind.filter fun i => i.rest.nullable
      let next := behind.foldl (fun s i => s.union (table.starts i.rest)) next
      let next :=
        if ended.any (fun i => i.category = .program) then next.insert Token.endOfSource.ctorIdx
        else next
      let deeper := ended.foldl
        (fun sets i => if i.read = 0 then sets else markAt (i.read - 1) i.category sets) deeper
      next.union (followers table below deeper)

/-- The lexemes that may follow an item that ends in the top frame. -/
def Item.followers (table : Table) (stack : List Frame) (i : Item) : TokenSet :=
  if i.category = .program then .single Token.endOfSource.ctorIdx
  else Script.followers table (stack.drop i.read) [.single i.category.ctorIdx]

end FileRoutes.Script
