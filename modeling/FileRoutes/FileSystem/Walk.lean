import FileRoutes.FileSystem.Basic

/-!
# Following paths

A path is followed name by name from the root or from the working directory. A link on the
way is replaced by its target, at most forty times for one path. At the end of a path a
link may be followed or taken for itself; a slash behind the last name asks for a directory.

## The model

* `Place` — what a path leads to: something that exists, or a name that is still free.
* `walk` — following the pieces of a path. The number of links left and the number of
  pieces left bound it together: a link uses one up and brings the pieces of its target.
-/

namespace FileRoutes.FileSystem

/-- What a path leads to. -/
inductive Place where
  /-- An entry. -/
  | found (location : Location)
  /-- A name that is free in a directory. -/
  | free (location : Location)
deriving DecidableEq, Inhabited

/-- Where an entry is or would be. -/
def Place.location : Place → Location
  | found l | free l => l

/-- The greatest number of bytes of a name. -/
def greatestName : Nat := 255

/-- The number of bytes that a path has to stay below. -/
def pathBound : Nat := 4096

/-- The greatest number of links on the way of a path. -/
def greatestLinks : Nat := 40

/-- Whether a piece of a path says nothing. -/
def saysNothing (piece : String) : Bool := piece = "" || piece = "."

/-- Where the pieces of a path or of the target of a link start. -/
def startOf (text : String) (here : Location) : Location :=
  if text.toList.head? = some '/' then [] else here

/-- Follows pieces from a directory; `links` is the number of links that may still be on the
way, and `follow` tells whether a link at the very end is followed. -/
def walk (fs : FileSystem) (follow : Bool) (links : Nat) (here : Location) :
    List String → Except Error Place
  | [] => .ok (.found here)
  | piece :: rest =>
    if saysNothing piece then walk fs follow links here rest
    else if piece = ".." then walk fs follow links here.dropLast rest
    else if greatestName < piece.utf8ByteSize then .error .nameTooLong
    else
      let there := here ++ [piece]
      match fs.entry? there with
      | none => if rest = [] then .ok (.free there) else .error .notFound
      | some .directory => walk fs follow links there rest
      | some (.file _) => if rest = [] then .ok (.found there) else .error .notDirectory
      | some (.link target) =>
        if rest = [] ∧ !follow then .ok (.found there)
        else
          match links with
          | 0 => .error .tooManyLinks
          | links + 1 =>
            walk fs follow links (startOf target here) (Text.split '/' target ++ rest)
termination_by pieces => (links, pieces.length)

/-- What is wrong with a path before it is followed. -/
def checkPath (p : Path) : Except Error Unit :=
  if '\x00' ∈ p.text.toList then .error .nulInPath
  else if p.text = "" then .error .notFound
  else if pathBound ≤ p.text.utf8ByteSize then .error .nameTooLong
  else .ok ()

/-- Follows a path. -/
def locate (fs : FileSystem) (follow : Bool) (p : Path) : Except Error Place := do
  checkPath p
  walk fs follow greatestLinks (startOf p.text fs.workingDirectory) p.segments

/-- The location that a path leads to. -/
def resolve (fs : FileSystem) (p : Path) : Except Error Location := do
  match ← fs.locate true p with
  | .found l => return l
  | .free _ => throw .notFound

/-- How a path ends. -/
structure Ending where
  /-- The directory of the last name. -/
  directory : Location
  /-- The last name, unless the path ends in a piece that is none. -/
  name : Option String
  /-- Whether a slash follows the last name. -/
  slash : Bool
deriving DecidableEq, Inhabited

/-- Follows a path up to its last piece, which has to be in a directory. -/
def ending (fs : FileSystem) (p : Path) : Except Error Ending := do
  checkPath p
  let core := (p.segments.reverse.dropWhile fun s => s = "").reverse
  let slash := core.length < p.segments.length
  let start := startOf p.text fs.workingDirectory
  match core.getLast? with
  | none => return ⟨start, none, slash⟩
  | some last =>
    match ← walk fs true greatestLinks start (core.dropLast ++ [""]) with
    | .free _ => throw .notFound
    | .found directory =>
      if last = "." ∨ last = ".." then return ⟨directory, none, slash⟩
      else if greatestName < last.utf8ByteSize then throw .nameTooLong
      else return ⟨directory, some last, slash⟩

end FileRoutes.FileSystem
