import FileRoutes.FileSystem.Reading

/-!
# Changing files

Directories are made together with those above them. A file is written next to its place
first and then moved there in one step, so that its place never holds half of a text; what
was written is removed again where it cannot be moved.

## The model

* `Action` — something that changes files and may fail; what it changed before it failed
  stays changed. `permit` is where the system may refuse a change that could be made.
* `ensureDirectory`, `writeFile` — the two changes that everything else is made of.
-/

namespace FileRoutes.FileSystem

/-- A change that may fail. -/
abbrev Action := ExceptT Error (StateM FileSystem)

namespace Action

/-- Asks the file system as it is. -/
def ask {α : Type} (question : FileSystem → Except Error α) : Action α := do
  match question (← get) with
  | .ok a => return a
  | .error e => throw e

/-- Passes, unless the system refuses the change that comes next. -/
def permit : Action Unit := do
  let fs ← get (σ := FileSystem)
  match fs.refusals with
  | [] => pure ()
  | refusal :: later =>
    set { fs with refusals := later }
    match refusal with
    | none => pure ()
    | some e => throw e

end Action

open Action

/-! ### Directories -/

/-- Makes a directory, whose name has to be free. -/
def makeDirectory (p : Path) : Action Unit := do
  let e ← ask fun fs => fs.ending p
  match e.name with
  | none => throw .alreadyExists
  | some name =>
    let l := e.directory ++ [name]
    let fs ← get (σ := FileSystem)
    if (fs.entry? l).isSome then throw .alreadyExists
    permit
    modify (σ := FileSystem) fun fs => fs.place l .directory

/-- Makes a directory unless it is there. -/
def makeOrKeep (p : Path) : Action Unit :=
  tryCatch (makeDirectory p) fun e => do
    let fs ← get (σ := FileSystem)
    match fs.isDirectory p with
    | .ok true => pure ()
    | _ => throw e

/-- A path and the directories above it, from the inside out; `fuel` bounds their number. -/
def ancestors : Nat → Path → List Path
  | 0, _ => []
  | fuel + 1, p => p :: (p.parent?.map (ancestors fuel)).getD []

/-- Makes the first of some directories, and those behind it where one above is missing. -/
def ensureFirst : List Path → Action Unit
  | [] => pure ()
  | p :: above =>
    if p.text = "" then pure ()
    else
      tryCatch (makeOrKeep p) fun e =>
        if e = .notFound then do
          ensureFirst above
          makeOrKeep p
        else throw e

/-- Makes a directory and those above it, as far as they are missing. -/
def ensureDirectory (p : Path) : Action Unit :=
  ensureFirst (ancestors (p.text.length + 1) p)

/-! ### Files -/

/-- Opens a file for writing: afterwards it is there, without any content. -/
def openFile (p : Path) : Action Location := do
  let place ← ask fun fs => fs.locate true p
  let fs ← get (σ := FileSystem)
  if fs.entry? place.location = some .directory then throw .isDirectory
  permit
  modify (σ := FileSystem) fun fs => fs.place place.location (.file (.text ""))
  return place.location

/-- Puts a file where a path leads; where it cannot be filled, it stays without content. -/
def putFile (p : Path) (content : Content) : Action Unit := do
  let l ← openFile p
  permit
  modify (σ := FileSystem) fun fs => fs.place l (.file content)

/-- Removes a file or a link, which the system does not refuse. -/
def removeFile (p : Path) : Action Unit := do
  let place ← ask fun fs => fs.locate false p
  let fs ← get (σ := FileSystem)
  match place with
  | .free _ => throw .notFound
  | .found l =>
    if fs.entry? l = some .directory then throw .isDirectory
    else set (fs.remove l)

/-- Moves a file to another place, where it replaces whatever is no directory. -/
def moveFile (source target : Path) : Action Unit := do
  let s ← ask fun fs => fs.ending source
  let t ← ask fun fs => fs.ending target
  match s.name, t.name with
  | some sourceName, some targetName =>
    let fs ← get (σ := FileSystem)
    let sourceAt := s.directory ++ [sourceName]
    let targetAt := t.directory ++ [targetName]
    match fs.entry? sourceAt with
    | none => throw .notFound
    | some e =>
      if s.slash ∨ t.slash then throw .notDirectory
      if fs.entry? targetAt = some .directory then throw .isDirectory
      permit
      modify (σ := FileSystem) fun fs => (fs.remove sourceAt).place targetAt e
  | _, _ => throw .busy

/-- The path of a temporary file next to a file; it takes the number it is made of. -/
def temporaryBeside (p : Path) : Action Path := do
  match p.fileName? with
  | none => throw (.noFileName p)
  | some name =>
    let fs ← get (σ := FileSystem)
    set { fs with temporaries := fs.temporaries + 1 }
    return p.directory.join
      ⟨"." ++ name ++ "." ++ fs.processTag ++ "." ++ toString fs.temporaries ++ ".tmp"⟩

/-- Does something, and removes a file where that fails. -/
def orRemoving {α : Type} (p : Path) (action : Action α) : Action α :=
  tryCatch action fun e => do
    tryCatch (removeFile p) fun _ => pure ()
    throw e

/-- Writes a text to a file in one step. -/
def writeFile (p : Path) (text : String) : Action Unit := do
  let temporary ← temporaryBeside p
  orRemoving temporary (putFile temporary (.text text))
  orRemoving temporary (moveFile temporary p)

end FileRoutes.FileSystem
