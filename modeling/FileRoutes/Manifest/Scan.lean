import FileRoutes.Diagnostic
import FileRoutes.FileSystem.Reading
import FileRoutes.Identifier.Fresh
import FileRoutes.Manifest.Source

/-!
# Scanning a folder

A folder is visited with everything below it, the names of each directory in order and
links followed. Each visit is judged on its own, and it does not matter which is judged
first: the entries are put together in the order of the visits, while a diagnostic is
reported as soon as its visit is judged. At the end the entries get identifiers that differ
from each other and from the names of the module they go into.

## The model

* `Visit`, `visitsBelow` — what is met below a folder, in order.
* `judge`, `judged` — what a visit comes to, and what all of them come to.
* `Findings`, `Findings.ofJudged`, `scan` — the manifest of a folder and the diagnostics
  about it, for visits judged in any order.

## What is proved

* `visitsBelow_of_files` — what is met in a directory of files.
-/

namespace FileRoutes.Manifest

/-- What is met below a folder. -/
inductive Visit where
  /-- A file; the path leads to it from the folder. -/
  | file (relative : Path)
  /-- Something that cannot be visited. -/
  | unreadable (path : Path) (error : FileSystem.Error)
deriving DecidableEq, Inhabited

/-- What is met below a directory of a folder, in order. Every level makes the path longer,
and a path that is too long cannot be visited, so `fuel` only has to be as large as the
greatest length of a path. -/
def visitsBelow (fs : FileSystem) (root : Path) : Nat → Path → List Visit
  | 0, _ => []
  | fuel + 1, relative =>
    match fs.listNames (root.join relative) with
    | .error e => [.unreadable (root.join relative) e]
    | .ok names => names.flatMap fun name =>
      let below := relative.child name
      match fs.isDirectory (root.join below) with
      | .error e => [.unreadable (root.join below) e]
      | .ok true => visitsBelow fs root fuel below
      | .ok false => [.file below]

/-- What is met below a folder, in order. -/
def visits (fs : FileSystem) (root : Path) : List Visit :=
  visitsBelow fs root FileSystem.pathBound ⟨""⟩

/-- In a directory that holds files only, these are met by name. -/
theorem visitsBelow_of_files {fs : FileSystem} {root relative : Path} {names : List String}
    (h : fs.listNames (root.join relative) = .ok names)
    (hf : ∀ name ∈ names, fs.isDirectory (root.join (relative.child name)) = .ok false)
    (fuel : Nat) :
    visitsBelow fs root (fuel + 1) relative = names.map fun name => .file (relative.child name) := by
  have below : visitsBelow fs root (fuel + 1) relative =
    match fs.listNames (root.join relative) with
    | .error e => [.unreadable (root.join relative) e]
    | .ok names => names.flatMap fun name =>
      let below := relative.child name
      match fs.isDirectory (root.join below) with
      | .error e => [.unreadable (root.join below) e]
      | .ok true => visitsBelow fs root fuel below
      | .ok false => [.file below] := rfl
  simp only [h] at below
  rw [below]
  clear below h
  induction names with
  | nil => rfl
  | cons name rest ih =>
    rw [List.flatMap_cons, List.map_cons, ih fun n hn => hf n (List.mem_cons_of_mem _ hn)]
    simp only [hf name List.mem_cons_self]
    rfl

/-- The error about something that cannot be read. -/
def unreadableMessage (path : Path) (e : FileSystem.Error) : String :=
  "Failed to read " ++ path.text ++ ": " ++ e.message

/-- What a file comes to; `relative` leads to it from the folder. -/
def judgeFile (fs : FileSystem) (role : Role) (root relative : Path) : Verdict :=
  let path := root.join relative
  match Script.Language.ofPath? path with
  | none => .passed
  | some language =>
    match fs.readText path with
    | .error e => .fault (unreadableMessage path e)
    | .ok source => inspectSource role path relative language source

/-- What a visit comes to. -/
def judge (fs : FileSystem) (role : Role) (root : Path) : Visit → Verdict
  | .file relative => judgeFile fs role root relative
  | .unreadable path e => .fault (unreadableMessage path e)

/-- The entry of a verdict. -/
def Verdict.entry? : Verdict → Option Entry
  | .entry e _ => some e
  | _ => none

/-- The diagnostic of a verdict. -/
def Verdict.diagnostic? : Verdict → Option Diagnostic
  | .passed => none
  | .fault message => some (.error message)
  | .entry _ warning => warning.map Diagnostic.warning

/-- The entries under identifiers that differ from each other and from `used`. -/
def withIdentifiers (used : List String) (entries : List Entry) : List Entry :=
  List.zipWith (fun (e : Entry) s => { e with identifier := s }) entries
    (Identifier.freshAll used (entries.map Entry.identifier))

/-- What a scan finds. -/
structure Findings where
  /-- The manifest. -/
  manifest : Manifest := []
  /-- The diagnostics. -/
  diagnostics : List Diagnostic := []
deriving DecidableEq, Inhabited

/-- Verdicts, each with the place of its visit, in the order of the visits. -/
def inOrder (judged : List (Verdict × Nat)) : List Verdict :=
  (judged.mergeSort fun a b => a.2 ≤ b.2).map Prod.fst

/-- What some verdicts come to together, each with the place of its visit; they are listed as
they were reached. -/
def Findings.ofJudged (role : Role) (judged : List (Verdict × Nat)) : Findings where
  manifest := withIdentifiers role.ownNames ((inOrder judged).filterMap Verdict.entry?)
  diagnostics := judged.filterMap fun v => v.1.diagnostic?

/-- What the visits below a folder come to, each with its place. -/
def judged (fs : FileSystem) (role : Role) (root : Path) : List (Verdict × Nat) :=
  ((visits fs root).map (judge fs role root)).zipIdx

/-- What is found below a folder when its visits are judged one after the other; a folder that
is not there holds nothing. -/
def scan (fs : FileSystem) (role : Role) (root : Path) : Findings :=
  if fs.holds root then .ofJudged role (judged fs role root) else {}

end FileRoutes.Manifest
