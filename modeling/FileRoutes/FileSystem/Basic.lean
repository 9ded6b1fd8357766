import FileRoutes.FileSystem.Error
import FileRoutes.Keyed

/-!
# File systems

A file system is a finite map from locations to entries. A location is the list of names
that leads from the root to an entry without any detour; the root itself is always there.

## The model

* `Location`, `Content`, `Entry` — where an entry is, what a file holds, what an entry is.
* `FileSystem` — the entries, the directory that relative paths start from, the tag and the
  counter that names of temporary files are made of, and what the system is going to refuse.
* `entry?`, `place`, `remove`, `names` — looking up, putting and removing entries, and the
  names in a directory.
-/

namespace FileRoutes

/-- The names that lead from the root to an entry. -/
abbrev Location := List String

/-- What a file holds. -/
inductive Content where
  /-- The bytes of a text. -/
  | text (text : String)
  /-- Bytes that are no text. -/
  | binary (bytes : List UInt8)
deriving DecidableEq, Inhabited

/-- What stands at a location. -/
inductive Entry where
  /-- A file. -/
  | file (content : Content)
  /-- A directory. -/
  | directory
  /-- A symbolic link. -/
  | link (target : String)
deriving DecidableEq, Inhabited

/-- The state of a file system, as seen by one process. -/
structure FileSystem where
  /-- The entries below the root. -/
  entries : List (Location × Entry) := []
  /-- Where relative paths start. -/
  workingDirectory : Location := []
  /-- A word that tells the process from others. -/
  processTag : String := ""
  /-- The number of temporary files that the process has named. -/
  temporaries : Nat := 0
  /-- What becomes of the next changes that could be made: for each of them, the fault with
  which the system refuses it for a reason of its own, if it does. Changes behind the list are
  not refused. -/
  refusals : List (Option FileSystem.Error) := []
deriving DecidableEq, Inhabited

namespace FileSystem

/-- What stands at a location; the root is a directory. -/
def entry? (fs : FileSystem) (l : Location) : Option Entry :=
  if l = [] then some .directory else Keyed.get? l fs.entries

/-- The file system with an entry at a location. -/
def place (fs : FileSystem) (l : Location) (e : Entry) : FileSystem :=
  { fs with entries := Keyed.put l e fs.entries }

/-- The file system without the entry at a location. -/
def remove (fs : FileSystem) (l : Location) : FileSystem :=
  { fs with entries := Keyed.erase l fs.entries }

/-- The file system without the entry at a location and everything below it. -/
def removeAll (fs : FileSystem) (l : Location) : FileSystem :=
  { fs with entries := fs.entries.filter fun m => !l.isPrefixOf m.1 }

/-- The name under which an entry at a location stands in a directory, if it does. -/
def nameIn? (directory location : Location) : Option String :=
  if location.dropLast = directory then location.getLast? else none

/-- The names in a directory, in order. -/
def names (fs : FileSystem) (directory : Location) : List String :=
  (fs.entries.filterMap fun m => nameIn? directory m.1).mergeSort fun a b => a ≤ b

end FileSystem

end FileRoutes
