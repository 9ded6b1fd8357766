import FileRoutes.Proofs.Findings

/-!
# Two trees that differ in one file

What one file holds decides about its own entry and about nothing else. Two trees that differ only
in what one file holds are visited alike, and every visit that does not lead to the file is judged
alike. So the manifests list the same other files, and the identifiers are the same up to the
file; behind it they may move, since its entry may take one or not.

## The model

* `FileSystem.DifferAt` — two trees that differ only in what one file holds.
* `Visit.leadsTo`, `Entry.isFrom` — a visit that meets the file, and the entry of the file.
* `Entry.unnamed` — an entry without its identifier.
* `DifferAbout` — two findings that differ in what comes of the file only.

## What is proved

* `DifferAt.walk`, `visits_differAt` — paths lead to the same places, and the same is visited.
* `judge_differAt` — what does not lead to the file is judged alike.
* `findings_differAt` — how the two manifests and the two reports differ.
-/

namespace FileRoutes

namespace FileSystem

/-- Two trees that differ only in what one file holds. -/
structure DifferAt (f : Location) (fs fs' : FileSystem) : Prop where
  /-- The first is a tree. -/
  tree : fs.IsTree
  /-- The second is a tree. -/
  tree' : fs'.IsTree
  /-- Relative paths start at the same directory. -/
  here : fs.workingDirectory = fs'.workingDirectory
  /-- The first has the file. -/
  file : ∃ content, fs.entry? f = some (.file content)
  /-- The second has the file. -/
  file' : ∃ content, fs'.entry? f = some (.file content)
  /-- Everything else is the same. -/
  others : ∀ l, l ≠ f → fs.entry? l = fs'.entry? l

namespace DifferAt

variable {f : Location} {fs fs' : FileSystem}

section questions

variable (h : DifferAt f fs fs')
include h

/-- What stands at a location is the same, or it is the file. -/
theorem entry_cases (l : Location) : fs.entry? l = fs'.entry? l ∨
    ∃ a b, fs.entry? l = some (.file a) ∧ fs'.entry? l = some (.file b) := by
  by_cases hl : l = f
  · obtain ⟨a, ha⟩ := h.file
    obtain ⟨b, hb⟩ := h.file'
    exact .inr ⟨a, b, hl ▸ ha, hl ▸ hb⟩
  · exact .inl (h.others l hl)

theorem entry_of_ne_file {l : Location} {e : Option Entry} (he : fs.entry? l = e)
    (hne : ∀ content, e ≠ some (.file content)) : fs'.entry? l = e := by
  obtain heq | ⟨a, -, ha, -⟩ := h.entry_cases l
  · exact heq ▸ he
  · exact absurd (he.symm.trans ha) (hne a)

theorem exists_file {l : Location} {content : Content} (he : fs.entry? l = some (.file content)) :
    ∃ content', fs'.entry? l = some (.file content') := by
  obtain heq | ⟨-, b, -, hb⟩ := h.entry_cases l
  · exact ⟨content, heq ▸ he⟩
  · exact ⟨b, hb⟩

/-- Paths lead to the same places: where the file is met, there is a file in both. -/
theorem walk (follow : Bool) (links : Nat) (here : Location) (ps : List String) :
    fs.walk follow links here ps = fs'.walk follow links here ps := by
  induction links using Nat.strongRecOn generalizing here ps with
  | _ links ihn =>
  induction ps generalizing here with
  | nil => rw [walk_nil, walk_nil]
  | cons piece rest ih =>
    obtain hs | rfl | ⟨down, long⟩ | ⟨down, short⟩ := step_cases piece
    · rw [walk_nothing hs, walk_nothing hs, ih]
    · rw [walk_up, walk_up, ih]
    · rw [walk_of_long down long, walk_of_long down long]
    · cases entry : fs.entry? (here ++ [piece]) with
      | none =>
        rw [walk_of_none down short entry,
          walk_of_none down short (h.entry_of_ne_file entry (by simp))]
      | some e =>
        cases e with
        | directory =>
          rw [walk_of_directory down short entry,
            walk_of_directory down short (h.entry_of_ne_file entry (by simp)), ih]
        | file content =>
          obtain ⟨content', entry'⟩ := h.exists_file entry
          rw [walk_of_file down short entry, walk_of_file down short entry']
        | link target =>
          have entry' := h.entry_of_ne_file entry (by simp)
          by_cases hend : rest = [] ∧ follow = false
          · obtain ⟨rfl, rfl⟩ := hend
            rw [walk_link_itself down short entry, walk_link_itself down short entry']
          · cases links with
            | zero =>
              rw [walk_link_zero down short entry hend, walk_link_zero down short entry' hend]
            | succ k =>
              rw [walk_link down short entry hend, walk_link down short entry' hend,
                ihn k (Nat.lt_succ_self k)]

theorem locate (follow : Bool) (p : Path) : fs.locate follow p = fs'.locate follow p := by
  rw [FileSystem.locate, FileSystem.locate, h.here, h.walk]

theorem resolve (p : Path) : fs.resolve p = fs'.resolve p := by
  rw [FileSystem.resolve, FileSystem.resolve, h.locate]

/-- What a path leads to is the same, unless it leads to the file. -/
theorem entryAt {p : Path} (hp : fs.resolve p ≠ .ok f) : fs.entryAt p = fs'.entryAt p := by
  rw [FileSystem.entryAt, FileSystem.entryAt, ← h.resolve]
  cases hr : fs.resolve p with
  | error e => rfl
  | ok l =>
    have hl : l ≠ f := fun e => hp (e ▸ hr)
    simp only [bind, Except.bind, h.others l hl]

/-- A path leads to a directory in both or in none. -/
theorem isDirectory (p : Path) : fs.isDirectory p = fs'.isDirectory p := by
  rw [FileSystem.isDirectory, FileSystem.isDirectory, FileSystem.entryAt, FileSystem.entryAt,
    ← h.resolve]
  cases fs.resolve p with
  | error e => rfl
  | ok l =>
    obtain heq | ⟨a, b, ha, hb⟩ := h.entry_cases l
    · simp only [bind, Except.bind, heq]
    · simp only [bind, Except.bind, ha, hb]
      rfl

theorem holds (p : Path) : fs.holds p = fs'.holds p := by
  rw [FileSystem.holds, FileSystem.holds, FileSystem.entryAt, FileSystem.entryAt, ← h.resolve]
  cases fs.resolve p with
  | error e => rfl
  | ok l =>
    obtain heq | ⟨a, b, ha, hb⟩ := h.entry_cases l
    · simp only [bind, Except.bind, heq]
    · simp only [bind, Except.bind, ha, hb]
      rfl

theorem names (l : Location) : fs.names l = fs'.names l :=
  h.tree.names_congr h.tree' fun name => by
    obtain heq | ⟨a, b, ha, hb⟩ := h.entry_cases (l ++ [name])
    · rw [heq]
    · exact ⟨fun _ => ⟨_, hb⟩, fun _ => ⟨_, ha⟩⟩

/-- Directories are listed alike. -/
theorem listNames (p : Path) : fs.listNames p = fs'.listNames p := by
  rw [FileSystem.listNames, FileSystem.listNames, ← h.resolve]
  cases fs.resolve p with
  | error e => rfl
  | ok l =>
    obtain heq | ⟨a, b, ha, hb⟩ := h.entry_cases l
    · simp only [bind, Except.bind, heq, h.names]
    · simp only [bind, Except.bind, ha, hb]

end questions

/-- A tree in which a file holds something else. -/
theorem place {l : Location} {name : String} {old : Content} (h : fs.IsTree)
    (he : fs.entry? (l ++ [name]) = some (.file old)) (new : Content) :
    DifferAt (l ++ [name]) fs (fs.place (l ++ [name]) (.file new)) where
  tree := h
  tree' := h.place (h.isName he (by simp)) (h.parents _ _ _ he) (by simp [he])
  here := rfl
  file := ⟨old, he⟩
  file' := ⟨new, entry_place_self _ (by simp) _⟩
  others _ hl := (entry_place_of_ne _ hl _).symm

end DifferAt

end FileSystem

namespace Manifest

open FileSystem (DifferAt)

/-! ### Visits and entries -/

/-- Whether a visit meets the file at a location. -/
def Visit.leadsTo (fs : FileSystem) (root : Path) (f : Location) : Visit → Bool
  | .file relative => fs.resolve (root.join relative) = .ok f
  | .unreadable _ _ => false

/-- Whether an entry is that of the file at a location. -/
def Entry.isFrom (fs : FileSystem) (f : Location) (e : Entry) : Bool :=
  fs.resolve e.sourcePath = .ok f

/-- An entry without its identifier. -/
def Entry.unnamed (e : Entry) : Entry := { e with identifier := "" }

/-- What is met below a folder before the file at a location is. -/
def visitsBefore (fs : FileSystem) (root : Path) (f : Location) : List Visit :=
  (visits fs root).takeWhile fun v => !v.leadsTo fs root f

/-- The entries of some visits, each under the identifier that it asks for. -/
def entriesOf (fs : FileSystem) (role : Role) (root : Path) (vs : List Visit) : List Entry :=
  vs.filterMap fun v => Verdict.entry? (judge fs role root v)

/-- What is reported about some visits. -/
def diagnosticsOf (fs : FileSystem) (role : Role) (root : Path) (vs : List Visit) :
    List Diagnostic :=
  vs.filterMap fun v => (judge fs role root v).diagnostic?

/-- What is reported about the file at a location. -/
def diagnosticsAbout (fs : FileSystem) (role : Role) (root : Path) (f : Location) :
    List Diagnostic :=
  diagnosticsOf fs role root ((visits fs root).filter (Visit.leadsTo fs root f))

/-- Two findings that differ in what comes of one file only. -/
structure DifferAbout (f : Location) (fs fs' : FileSystem) (role : Role) (root : Path)
    (found found' : Findings) : Prop where
  /-- The other entries are the same and in the same order, whatever their identifiers. -/
  others : (found.manifest.filter fun e => !e.isFrom fs f).map Entry.unnamed =
    (found'.manifest.filter fun e => !e.isFrom fs' f).map Entry.unnamed
  /-- The entries before the file come first. -/
  front : withIdentifiers role.ownNames (entriesOf fs role root (visitsBefore fs root f)) <+:
    found.manifest
  /-- They come first in both manifests, under the same identifiers. -/
  front' : withIdentifiers role.ownNames (entriesOf fs role root (visitsBefore fs root f)) <+:
    found'.manifest
  /-- What is reported is the same, up to what is said about the file and up to order. -/
  diagnostics : ∃ common,
    found.diagnostics.Perm (common ++ diagnosticsAbout fs role root f) ∧
      found'.diagnostics.Perm (common ++ diagnosticsAbout fs' role root f)

section findings

variable {fs : FileSystem} {role : Role} {root : Path} {completed : List (Verdict × Nat)}

theorem manifest_completed (h : completed.Perm (judged fs role root)) :
    (Findings.ofJudged role completed).manifest =
      withIdentifiers role.ownNames (entriesOf fs role root (visits fs root)) := by
  rw [manifest_ofJudged h, List.filterMap_map]
  rfl

theorem diagnostics_completed (h : completed.Perm (judged fs role root)) :
    (Findings.ofJudged role completed).diagnostics.Perm
      (diagnosticsOf fs role root (visits fs root)) := by
  have hperm := diagnostics_ofJudged role h
  rwa [List.filterMap_map] at hperm

/-- The identifiers of the first entries do not depend on those behind them. -/
theorem withIdentifiers_prefix (used : List String) (first rest : List Entry) :
    withIdentifiers used first <+: withIdentifiers used (first ++ rest) := by
  rw [withIdentifiers, withIdentifiers, List.map_append, Identifier.freshAll_append,
    List.zipWith_append (by rw [Identifier.length_freshAll, List.length_map])]
  exact List.prefix_append _ _

/-- An entry is that of the file that its visit leads to. -/
theorem isFrom_of_judge {v : Visit} {e : Entry} (h : Verdict.entry? (judge fs role root v) = some e)
    (f : Location) : e.isFrom fs f = v.leadsTo fs root f := by
  cases v with
  | unreadable path error => cases h
  | file relative => rw [Entry.isFrom, sourcePath_judgeFile h, Visit.leadsTo]

/-- The entries of other files are those of the visits that do not lead to the file. -/
theorem filter_entriesOf (f : Location) (vs : List Visit) :
    (entriesOf fs role root vs).filter (fun e => !e.isFrom fs f) =
      entriesOf fs role root (vs.filter fun v => !v.leadsTo fs root f) := by
  rw [entriesOf, entriesOf, List.filter_filterMap, List.filterMap_filter]
  refine List.filterMap_congr fun v _ => ?_
  cases he : Verdict.entry? (judge fs role root v) with
  | none => simp
  | some e =>
    have hfrom : e.isFrom fs f = v.leadsTo fs root f := isFrom_of_judge he f
    simp only [Option.filter_some, hfrom]

/-- Apart from their identifiers, the entries of other files are those of the visits that do not
lead to the file. -/
theorem others_completed (h : completed.Perm (judged fs role root)) (f : Location) :
    ((Findings.ofJudged role completed).manifest.filter fun e => !e.isFrom fs f).map Entry.unnamed =
      (entriesOf fs role root ((visits fs root).filter fun v => !v.leadsTo fs root f)).map
        Entry.unnamed := by
  have hfilter (l : List Entry) : (l.filter fun e => !e.isFrom fs f).map Entry.unnamed =
      (l.map Entry.unnamed).filter fun e => !e.isFrom fs f := by
    rw [List.filter_map]
    rfl
  rw [manifest_completed h, hfilter, map_withIdentifiers (fun _ _ => rfl), ← hfilter,
    filter_entriesOf]

/-- What is reported about a folder is what is reported about other files and about the file. -/
theorem diagnosticsOf_perm (fs : FileSystem) (role : Role) (root : Path) (f : Location) :
    (diagnosticsOf fs role root (visits fs root)).Perm
      (diagnosticsOf fs role root ((visits fs root).filter fun v => !v.leadsTo fs root f) ++
        diagnosticsAbout fs role root f) := by
  have hsplit := List.filter_append_perm (fun v => !v.leadsTo fs root f) (visits fs root)
  simp only [Bool.not_not] at hsplit
  rw [diagnosticsAbout, diagnosticsOf, diagnosticsOf, diagnosticsOf, ← List.filterMap_append]
  exact (hsplit.filterMap _).symm

end findings

/-! ### Two trees -/

section trees

variable {f : Location} {fs fs' : FileSystem} {role : Role} {root : Path}
variable (h : DifferAt f fs fs')
include h

theorem visitsBelow_differAt (fuel : Nat) (relative : Path) :
    visitsBelow fs root fuel relative = visitsBelow fs' root fuel relative := by
  induction fuel generalizing relative with
  | zero => rfl
  | succ fuel ih => simp only [visitsBelow_step, h.listNames, h.isDirectory, ih]

/-- The same is met below a folder. -/
theorem visits_differAt : visits fs root = visits fs' root := visitsBelow_differAt h _ _

/-- The same visits lead to the file. -/
theorem leadsTo_differAt (v : Visit) : v.leadsTo fs root f = v.leadsTo fs' root f := by
  cases v with
  | file relative => simp only [Visit.leadsTo, h.resolve]
  | unreadable path e => rfl

/-- What does not lead to the file is judged alike. -/
theorem judge_differAt {v : Visit} (hv : v.leadsTo fs root f = false) :
    judge fs role root v = judge fs' role root v := by
  cases v with
  | file relative => exact judgeFile_congr (h.entryAt (of_decide_eq_false hv))
  | unreadable path e => rfl

theorem entriesOf_differAt {vs : List Visit} (hvs : ∀ v ∈ vs, v.leadsTo fs root f = false) :
    entriesOf fs role root vs = entriesOf fs' role root vs :=
  List.filterMap_congr fun v hv => by rw [judge_differAt h (hvs v hv)]

theorem diagnosticsOf_differAt {vs : List Visit} (hvs : ∀ v ∈ vs, v.leadsTo fs root f = false) :
    diagnosticsOf fs role root vs = diagnosticsOf fs' role root vs :=
  List.filterMap_congr fun v hv => by rw [judge_differAt h (hvs v hv)]

/-- **One file only affects its own entry.** In two trees that differ only in what one file holds,
a folder is scanned to the same other entries in the same order. The entries before the file have
the same identifiers, and what is reported differs only in what is said about the file. It does
not matter in which order the files are judged. -/
theorem findings_differAt (role : Role) (root : Path) :
    (scan fs role root = {} ∧ scan fs' role root = {} ∨
      scan fs role root = .ofJudged role (judged fs role root) ∧
        scan fs' role root = .ofJudged role (judged fs' role root)) ∧
    ∀ completed completed', completed.Perm (judged fs role root) →
      completed'.Perm (judged fs' role root) →
      DifferAbout f fs fs' role root (.ofJudged role completed) (.ofJudged role completed') := by
  have hvisits : visits fs root = visits fs' root := visits_differAt h
  have hother : (fun v : Visit => !v.leadsTo fs root f) = fun v => !v.leadsTo fs' root f :=
    funext fun v => by rw [leadsTo_differAt h]
  have hfilter : (visits fs root).filter (fun v => !v.leadsTo fs root f) =
      (visits fs' root).filter fun v => !v.leadsTo fs' root f := by
    rw [hvisits, hother]
  have hothers : ∀ v ∈ (visits fs root).filter (fun v => !v.leadsTo fs root f),
      v.leadsTo fs root f = false := fun v hv => by simpa using List.of_mem_filter hv
  have hbefore : ∀ v ∈ visitsBefore fs root f, v.leadsTo fs root f = false := fun v hv => by
    simpa using List.mem_takeWhile_imp hv
  have hfront (fs : FileSystem) : entriesOf fs role root (visits fs root) =
      entriesOf fs role root (visitsBefore fs root f) ++ entriesOf fs role root
        ((visits fs root).dropWhile fun v => !v.leadsTo fs root f) := by
    rw [entriesOf, entriesOf, entriesOf, ← List.filterMap_append, visitsBefore,
      List.takeWhile_append_dropWhile]
  have hsame : visitsBefore fs root f = visitsBefore fs' root f := by
    rw [visitsBefore, visitsBefore, hvisits, hother]
  refine ⟨?_, fun completed completed' hc hc' => ⟨?_, ?_, ?_, ?_⟩⟩
  · rw [scan, scan, ← h.holds]
    split
    · exact .inr ⟨rfl, rfl⟩
    · exact .inl ⟨rfl, rfl⟩
  · rw [others_completed hc, others_completed hc', ← hfilter, entriesOf_differAt h hothers]
  · rw [manifest_completed hc, hfront]
    exact withIdentifiers_prefix _ _ _
  · rw [manifest_completed hc', hfront, entriesOf_differAt h hbefore, hsame]
    exact withIdentifiers_prefix _ _ _
  · refine ⟨_, (diagnostics_completed hc).trans (diagnosticsOf_perm fs role root f), ?_⟩
    rw [diagnosticsOf_differAt h hothers, hfilter]
    exact (diagnostics_completed hc').trans (diagnosticsOf_perm fs' role root f)

end trees

/-- The files of the small folder, of which one is no module any more. -/
def brokenFiles : FileSystem :=
  nestedFiles.place ["api", "a", "x.ts"] (.file (.text "export default"))

/-- A file of the small folder is no module any more. -/
theorem findings_differAt_sample :
    DifferAt ["api", "a", "x.ts"] nestedFiles brokenFiles ∧
      DifferAbout ["api", "a", "x.ts"] nestedFiles brokenFiles .handler ⟨"api"⟩
        (.ofJudged .handler (judged nestedFiles .handler ⟨"api"⟩))
        (.ofJudged .handler (judged brokenFiles .handler ⟨"api"⟩).reverse) := by
  have htree : nestedFiles.IsTree := by decide +kernel
  have hdiffer : DifferAt (["api", "a"] ++ ["x.ts"]) nestedFiles brokenFiles :=
    .place htree rfl _
  exact ⟨hdiffer, (findings_differAt hdiffer .handler ⟨"api"⟩).2 _ _ (.refl _)
    (List.reverse_perm _)⟩

end Manifest

end FileRoutes
