import Std.Data.HashMap
import Std.Data.HashSet
import FileRoutes.FileSystem.Writing
import FileRoutes.Command.Run

/-!
# The disk

What a run needs of the disk is read into a file system before the run, and what the run
changed in it is written back afterwards. A link is read as a link to where it leads in the
end, and that place is read too.
-/

namespace FileRoutes.Disk

/-- The text of the path of a location. -/
def textOf (l : Location) : String := (Path.ofLocation l).text

/-- What has been read: the entries, and the directories all of which has been read. -/
structure Known where
  /-- The entries. -/
  entries : Std.HashMap Location Entry := {}
  /-- The directories all of which has been read. -/
  listed : Std.HashSet Location := {}

/-- Reads of the disk. -/
abbrev Loader := StateT Known IO

/-- The content of a file; only texts that a run may look into are read. -/
def contentOf (l : Location) : IO Content := do
  if (Config.Format.ofPath? (Path.ofLocation l)).isNone then return .binary []
  let bytes ← IO.FS.readBinFile (textOf l)
  return match String.fromUTF8? bytes with
    | some s => .text s
    | none => .binary bytes.toList

/-- Where a link leads in the end; nowhere at all where it leads to nothing. -/
def targetOf (l : Location) : IO String := do
  try return (← IO.FS.realPath (textOf l)).toString
  catch _ => return "/\x00"

/-- What stands at a location of the disk. -/
def entryOf (l : Location) : IO (Option Entry) := do
  try
    match (← (IO.FS.DirEntry.mk (textOf l) "").root.symlinkMetadata).type with
    | .dir => return some .directory
    | .symlink => return some (.link (← targetOf l))
    | _ => return some (.file (← contentOf l))
  catch _ => return none

/-- The names in a directory of the disk. -/
def namesOf (l : Location) : IO (List String) := do
  try
    let found ← (IO.FS.DirEntry.mk (textOf l) "").root.readDir
    return found.toList.map fun e => e.fileName
  catch _ => return []

/-- Follows the pieces of a path from a directory and reads what is on the way, and all that is
below its end. -/
partial def load (here : Location) : List String → Loader Unit
  | [] => do
    if here ∈ (← get).listed then return
    modify fun k => { k with listed := k.listed.insert here }
    for name in ← namesOf here do load here [name]
  | piece :: rest => do
    if FileSystem.saysNothing piece then load here rest
    else if piece = ".." then load here.dropLast rest
    else
      let l := here ++ [piece]
      match ← entryOf l with
      | none => pure ()
      | some e =>
        modify fun k => { k with entries := k.entries.insert l e }
        match e with
        | .directory => load l rest
        | .link target => load [] (Text.split '/' target ++ rest)
        | .file _ => pure ()

/-- Reads what is on the way of a path and below its end. -/
def loadPath (start : Location) (p : Path) : Loader Unit :=
  load (FileSystem.startOf p.text start) p.segments

/-- The directory that the program runs in. -/
def workingDirectory : IO Location := do
  return Path.names ⟨(← IO.currentDir).toString⟩

/-- The file system of some paths. -/
def snapshot (paths : List Path) : IO FileSystem := do
  let here ← workingDirectory
  let (_, known) ← (paths.forM (loadPath here)).run {}
  let tag ← IO.monoNanosNow
  return {
    entries := known.entries.toList
    workingDirectory := here
    processTag := toString tag }

/-- Writes a text to a file in one step. -/
def writeText (l : Location) (tag text : String) : IO Unit := do
  let name := l.getLast?.getD ""
  let temporary := textOf (l.dropLast ++ ["." ++ name ++ "." ++ tag ++ ".tmp"])
  try
    IO.FS.writeFile temporary text
    IO.FS.rename temporary (textOf l)
  catch e =>
    try IO.FS.removeFile temporary catch _ => pure ()
    throw e

/-- Brings a location of the disk to where a run left it. -/
def apply (tag : String) (l : Location) : Entry → IO Unit
  | .directory => IO.FS.createDirAll (textOf l)
  | .file (.text s) => writeText l tag s
  | _ => pure ()

/-- What is said about a location that cannot be brought to where a run left it. -/
def faultMessage (l : Location) (e : IO.Error) : String :=
  "Error writing the file: " ++ textOf l ++ ": " ++ toString e

/-- Brings the disk from one state to another, as far as it can; tells what is wrong. -/
def update (before after : FileSystem) : IO (List String) := do
  let changed := after.entries.filter fun m => before.entry? m.1 ≠ some m.2
  let mut faults := []
  for (l, e) in changed.mergeSort fun a b => a.1.length ≤ b.1.length do
    try apply after.processTag l e
    catch fault => faults := faults ++ [faultMessage l fault]
  return faults

end FileRoutes.Disk
