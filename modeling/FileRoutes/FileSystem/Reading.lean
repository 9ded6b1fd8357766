import FileRoutes.FileSystem.Walk

/-!
# Reading files

What can be asked of a file system without changing it. Every question follows links.
-/

namespace FileRoutes.FileSystem

/-- The entry that a path leads to. -/
def entryAt (fs : FileSystem) (p : Path) : Except Error Entry := do
  match fs.entry? (← fs.resolve p) with
  | some e => return e
  | none => throw .notFound

/-- Whether anything is where a path leads. -/
def holds (fs : FileSystem) (p : Path) : Bool := (fs.entryAt p).toBool

/-- Whether a path leads to a directory. -/
def isDirectory (fs : FileSystem) (p : Path) : Except Error Bool := do
  return (← fs.entryAt p) = .directory

/-- Whether a path leads to a file. -/
def isFile (fs : FileSystem) (p : Path) : Bool :=
  match fs.entryAt p with
  | .ok (.file _) => true
  | _ => false

/-- The text of a file. -/
def readText (fs : FileSystem) (p : Path) : Except Error String := do
  match ← fs.entryAt p with
  | .file (.text s) => return s
  | .file (.binary _) => throw .notText
  | .directory => throw .isDirectory
  | .link _ => throw .notFound

/-- The names in a directory, in order. -/
def listNames (fs : FileSystem) (p : Path) : Except Error (List String) := do
  let l ← fs.resolve p
  match fs.entry? l with
  | some .directory => return fs.names l
  | _ => throw .notDirectory

end FileRoutes.FileSystem
