import FileRoutes.Text.Split

/-!
# Unix paths

A path is the text it was built from: `a//b/./c` and `a/b/c` are different paths that
name the same place. What a path says is its list of components, and every operation is
defined through the pieces of the text between slashes.

## The model

* `Path` — a text. It is shown as it was built; nothing is normalized on the way.
* `Component` — the root, `.`, `..` or a name. A `.` is a component only at the very
  start of a relative path, and empty pieces never are, so repeated and trailing slashes
  do not change what a path says.
* `join`, `parent?`, `fileName?`, `stem?`, `extension?`, `startsWith` — the operations the
  generator needs. `join` with an absolute path forgets the left one, and `parent?` keeps
  the inner spelling of the path.
-/

namespace FileRoutes

/-- A path in a Unix file system, kept as the text it was built from. -/
structure Path where
  /-- The text, slashes and all. -/
  text : String
deriving DecidableEq, Inhabited

namespace Path

/-- What one step of a path says. -/
inductive Component where
  /-- The slash an absolute path starts with. -/
  | root
  /-- The directory the path starts from, written as a leading `.`. -/
  | here
  /-- One directory up. -/
  | up
  /-- The entry with this name. -/
  | name (text : String)
deriving DecidableEq, Inhabited

namespace Component

/-- The spelling of a component inside a path. -/
def text : Component → String
  | root => "/"
  | here => "."
  | up => ".."
  | name s => s

/-- The name of an entry, if the component is one. -/
def name? : Component → Option String
  | name s => some s
  | _ => none

end Component

/-- The pieces of a path between its slashes. -/
def segments (p : Path) : List String := Text.split '/' p.text

/-- Whether the path starts at the root. -/
def isAbsolute (p : Path) : Bool := p.text.toList.head? == some '/'

/-- The component a piece stands for; empty pieces and `.` say nothing. -/
def componentOf? (segment : String) : Option Component :=
  if segment = "" ∨ segment = "." then none
  else if segment = ".." then some .up
  else some (.name segment)

/-- The components of a path, from the outside in. -/
def components (p : Path) : List Component :=
  if p.isAbsolute then .root :: p.segments.filterMap componentOf?
  else match p.segments with
    | [] => []
    | s :: rest =>
      (if s = "." then [.here] else []) ++ (s :: rest).filterMap componentOf?

/-- The names among the components. -/
def names (p : Path) : List String := p.components.filterMap Component.name?

/-- The text of a list of components, read from the outside in. -/
def ofComponents : List Component → Path
  | .root :: cs => ⟨"/" ++ Text.join "/" (cs.map Component.text)⟩
  | cs => ⟨Text.join "/" (cs.map Component.text)⟩

/-- The path `q` as seen from the directory `p`. -/
def join (p q : Path) : Path :=
  if q.isAbsolute then q
  else if p.text = "" then q
  else if p.text.toList.getLast? = some '/' then ⟨p.text ++ q.text⟩
  else ⟨p.text ++ "/" ++ q.text⟩

/-- The path of the entry called `s` in the directory `p`. -/
def child (p : Path) (s : String) : Path := p.join ⟨s⟩

/-- The pieces without those at the end that say nothing. -/
def trimEnd (segments : List String) : List String :=
  (segments.reverse.dropWhile fun s => s = "" ∨ s = ".").reverse

/-- The path without its last component, spelled as it was; the root and the empty path have
no parent. -/
def parent? (p : Path) : Option Path :=
  match p.segments with
  | [] => none
  | s :: rest =>
    match trimEnd rest with
    | [] => if s = "" then none else some ⟨""⟩
    | inner =>
      match trimEnd inner.dropLast with
      | [] => some ⟨if s = "" then "/" else s⟩
      | kept => some ⟨Text.join "/" (s :: kept)⟩

/-- The directory an entry is in; the empty path where there is none. -/
def directory (p : Path) : Path := p.parent?.getD ⟨""⟩

/-- The name of the entry a path leads to, if its last component is a name. -/
def fileName? (p : Path) : Option String := p.components.getLast? >>= Component.name?

/-- A name cut at its last dot, the dot dropped. A dot at the very start belongs to the
name, and so does a name without another dot. -/
def splitName (name : String) : String × Option String :=
  let reversed := name.toList.reverse
  let last := (reversed.takeWhile (· ≠ '.')).reverse
  match reversed.dropWhile (· ≠ '.') with
  | _ :: c :: before => (String.ofList (c :: before).reverse, some (String.ofList last))
  | _ => (name, none)

/-- The name of an entry without its extension. -/
def stem? (p : Path) : Option String := p.fileName?.map fun s => (splitName s).1

/-- What follows the last dot of the name of an entry. -/
def extension? (p : Path) : Option String := p.fileName?.bind fun s => (splitName s).2

/-- Whether the components of `p` begin with those of `q`. -/
def startsWith (p q : Path) : Bool := q.components.isPrefixOf p.components

end Path

end FileRoutes
