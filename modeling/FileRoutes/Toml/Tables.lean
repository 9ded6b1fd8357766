import FileRoutes.Keyed
import FileRoutes.Toml.Node

/-!
# Putting a TOML document together

The lines of a document say one after the other what its tables hold. A key is set once. A
table has one header at most; what stands between brackets or braces is complete as it is;
and dotted keys only add to tables that dotted keys have made.

## The model

* `Line` — what a line says.
* `within` — changing the table that a path of keys leads to; tables on the way that are not
  there come into being.
* `membersOf` — the document of some lines.
-/

namespace FileRoutes.Toml

/-- What a line says. -/
inductive Line where
  /-- A value of a key, which may lead through tables. -/
  | pair (path : List Key) (value : Placed)
  /-- The header of a table. -/
  | table (path : List Key) (span : Span)
  /-- The header of a further table in a list of tables. -/
  | element (path : List Key) (span : Span)
deriving Inhabited

/-- A table as it is changed: how it came about, and its members. -/
structure Table where
  /-- How it came about. -/
  kind : TableKind
  /-- Its members. -/
  members : Members
deriving Inhabited

/-- The table with a member, whose stretch is kept where it is there already. -/
def Table.put (t : Table) (key : Key) (span : Span) (node : Node) : Table :=
  { t with members := Keyed.put key.name (span, node) t.members }

/-- Changes the table that a path leads to. With `dotted` the path belongs to a dotted key,
which must not pass a table that has a header. -/
def within (dotted : Bool) (change : Table → Option Table) : List Key → Table → Option Table
  | [], t => change t
  | key :: path, t =>
    match Keyed.get? key.name t.members with
    | none => do
      let kind := if dotted then TableKind.dotted else .implied
      let inner ← within dotted change path ⟨kind, []⟩
      return t.put key key.span (.table inner.kind inner.members)
    | some (span, .table kind members) =>
      if kind = .closed ∨ (dotted ∧ kind = .headed) then none
      else do
        let inner ← within dotted change path ⟨kind, members⟩
        return t.put key span (.table inner.kind inner.members)
    | some (span, .tables elements) =>
      match elements.reverse with
      | [] => none
      | (last, members) :: before => do
        let inner ← within dotted change path ⟨.headed, members⟩
        return t.put key span (.tables (((last, inner.members) :: before).reverse))
    | some _ => none

/-- The table with the value of a key that leads through no other table; `dotted` tells whether
it is the end of a dotted key. -/
def Table.setKey (dotted : Bool) (key : Key) (v : Placed) (t : Table) : Option Table :=
  if (t.kind = .dotted) ≠ dotted ∨ (Keyed.get? key.name t.members).isSome then none
  else some (t.put key v.1 v.2)

/-- The table with the value of a key. -/
def Table.setPath (path : List Key) (v : Placed) (t : Table) : Option Table :=
  match path.getLast? with
  | none => none
  | some key =>
    let dotted := path.length ≠ 1
    within dotted (Table.setKey dotted key v) path.dropLast t

/-- The members with some pairs added. -/
def addPairs (pairs : List (List Key × Placed)) (members : Members) : Option Members :=
  (pairs.foldlM (fun t (path, v) => Table.setPath path v t) ⟨.headed, members⟩).map Table.members

/-- The table with a header for a key: the table of the key must be new or implied. -/
def Table.openTable (key : Key) (span : Span) (t : Table) : Option Table :=
  match Keyed.get? key.name t.members with
  | none => some (t.put key span (.table .headed []))
  | some (_, .table .implied members) => some (t.put key span (.table .headed members))
  | some _ => none

/-- The table with a further element for a key: the key must be new or a list of tables. -/
def Table.openElement (key : Key) (span : Span) (t : Table) : Option Table :=
  match Keyed.get? key.name t.members with
  | none => some (t.put key span (.tables [(span, [])]))
  | some (first, .tables elements) => some (t.put key first (.tables (elements ++ [(span, [])])))
  | some _ => none

/-- A document as it is put together: its members, and the path of the last header. -/
structure Draft where
  /-- The document. -/
  root : Table := ⟨.headed, []⟩
  /-- The keys that lead to the table of the last header. -/
  current : List Key := []
deriving Inhabited

/-- The document with a header. -/
def Draft.header (d : Draft) (path : List Key) (change : Key → Table → Option Table) :
    Option Draft :=
  match path.getLast? with
  | none => none
  | some key => (within false (change key) path.dropLast d.root).map fun root => ⟨root, path⟩

/-- The document with a line. -/
def Draft.add (d : Draft) : Line → Option Draft
  | .pair path v =>
    (within false (Table.setPath path v) d.current d.root).map fun root => { d with root := root }
  | .table path span => d.header path fun key t => t.openTable key span
  | .element path span => d.header path fun key t => t.openElement key span

/-- The members of the document of some lines. -/
def membersOf (lines : List Line) : Option Members :=
  (lines.foldlM Draft.add {}).map fun d => d.root.members

end FileRoutes.Toml
