import FileRoutes.Command.Run
import FileRoutes.Proofs.Attempts
import FileRoutes.Proofs.Beginnings
import FileRoutes.Proofs.Completion
import FileRoutes.Watch.Batch
import Mathlib

/-!
# Where a run writes

A run makes its output directory and then only tries to write modules, each through a temporary
file beside it. Where no link is below the output directory, a module and its temporary file can
be found in one place only, however the directory and the folders are spelled: so what one attempt
does to a location can be said, and with it what a whole run does.

The places come from the folders of the config, so a module may lie below a directory that is
called like the entrypoint, and a file of another origin may have the name of a temporary file of
the process. Both are part of what is proved: a run that fails may leave a directory where the
entrypoint would be, and a run may take such a file away.

## The model

* `IsTemporaryFor` — the location of a temporary file of the process for a module.
* `Ready` — the output directory is there, and no link is below it.
* `Course.Becomes` — what a run can make of what stands at a location.
* `Course.Touches` — the paths that a run writes.

## What is proved

* `Attempt.entry_after` — what one attempt leaves at a location; `Ready.after` — it leaves the
  output directory as the next attempt needs it.
* `Course.becomes_final` — what a run leaves at a location.
* `Course.entry_entrypoint_of_failed` — a run that fails has not written its entrypoint.
* `Course.Touches.not_matters` — a watcher that ignores the output directory drops what a run
  writes.
* `Course.run_contained` — all of this together.
-/

namespace FileRoutes

/-! ### Below a directory without links -/

namespace FileSystem

open FileRoutes.Path (GoesDown IsBelow segments)

variable {fs fs' : FileSystem} {base directory l : Location} {p : Path} {file name : String}
  {init : List String}

theorem NoLinksBelow.append (h : fs.NoLinksBelow base) (rel : Location) :
    fs.NoLinksBelow (base ++ rel) := by
  intro more target hmore
  rw [List.append_assoc]
  exact h _ target (by simp [hmore])

/-- A file below a directory without links can be found in one place only. -/
theorem PassesTo.location_child (h : fs.PassesTo p base) (hn : fs.NoLinksBelow base)
    (hf : IsBelow file) (hl : fs.LeadsTo (p.child file) l) : l = base ++ segments ⟨file⟩ := by
  obtain ⟨last, place, hplace, rfl⟩ := hl
  obtain ⟨m, hlocate⟩ := h.locate_join hf.not_isAbsolute
  obtain ⟨init, name, hs, hname⟩ := hf.exists_name
  have hinit : ∀ s ∈ init, GoesDown s := fun s hm => hf s (by simp [hs, hm])
  have hw : fs.walk last m base (init ++ [name]) = .ok place := by
    rw [Path.child, hlocate, hs] at hplace
    cases hc : checkPath (p.join ⟨file⟩) with
    | error e => simp [hc, bind, Except.bind] at hplace
    | ok u => simpa [hc, bind, Except.bind] using hplace
  obtain ⟨k, x, hpasses, hwalk⟩ := exists_passes (by simp) hw
  obtain rfl := hpasses.location_down hinit hn
  have hplain : ∀ target, fs.entry? (base ++ init ++ [name]) ≠ some (.link target) := by
    intro target
    rw [List.append_assoc]
    exact hn _ target (by simp)
  rw [location_of_walk_name hname hplain hwalk, hs, List.append_assoc]

/-- The directory of such a file is in one place only. -/
theorem PassesTo.location_directory_child (h : fs.PassesTo p base) (hn : fs.NoLinksBelow base)
    (hf : IsBelow file) (hs : segments ⟨file⟩ = init ++ [name])
    (hd : fs.PassesTo (p.child file).directory directory) : directory = base ++ init := by
  have hdown : ∀ s ∈ init ++ [name], GoesDown s := fun s hm => hf s (hs ▸ hm)
  obtain ⟨before, hjoin, hiff⟩ := passes_join_iff fs hf.not_isAbsolute p
  have hsegments : (p.child file).segments = (before ++ init) ++ name :: [] := by
    rw [Path.child, hjoin, hs, List.append_assoc]
  obtain ⟨m, hpasses⟩ :=
    (passesTo_directory_iff hsegments (hdown name (by simp)).1 (by simp)).1 hd
  obtain ⟨k, x, hbefore, hinit⟩ := hpasses.split
  obtain ⟨n, hbase⟩ := h
  obtain ⟨rfl, rfl⟩ := ((hiff n base).1 hbase).unique hbefore
  exact hinit.location_down (fun s hm => hdown s (by simp [hm])) hn

/-- Below such a directory stands nothing but files and directories. -/
theorem NoLinksBelow.free_or_file (h : fs.NoLinksBelow base) {rel : Location} (hrel : rel ≠ [])
    (hd : fs.entry? (base ++ rel) ≠ some .directory) :
    fs.entry? (base ++ rel) = none ∨ ∃ content, fs.entry? (base ++ rel) = some (.file content) := by
  cases he : fs.entry? (base ++ rel) with
  | none => exact .inl rfl
  | some e =>
    cases e with
    | directory => exact absurd he hd
    | file content => exact .inr ⟨content, rfl⟩
    | link target => exact absurd he (h rel target hrel)

/-- The name of the temporary file of a process for a file. -/
def temporaryNameOf (tag file : String) (n : Nat) : String :=
  "." ++ file ++ "." ++ tag ++ "." ++ toString n ++ ".tmp"

/-- The location of a temporary file of a process, with its number, for a file below a
location. -/
def IsTemporaryFor (tag : String) (n : Nat) (base : Location) (file : String) (l : Location) :
    Prop :=
  ∃ init name, segments ⟨file⟩ = init ++ [name] ∧ l = base ++ init ++ [temporaryNameOf tag name n]

theorem IsTemporaryFor.exists_below {tag : String} {n : Nat}
    (h : IsTemporaryFor tag n base file l) : ∃ rel ≠ [], l = base ++ rel := by
  obtain ⟨init, name, -, rfl⟩ := h
  exact ⟨init ++ [temporaryNameOf tag name n], by simp, List.append_assoc _ _ _⟩

theorem IsTemporaryFor.isTemporary {tag : String} {n : Nat}
    (h : IsTemporaryFor tag n base file l) : IsTemporary l := by
  obtain ⟨init, name, -, rfl⟩ := h
  refine ⟨temporaryNameOf tag name n, List.getLast?_concat, ?_⟩
  rw [temporaryNameOf, String.toList_append]
  exact List.suffix_append _ _

theorem isBelow_temporaryNameOf {tag : String} (htag : '/' ∉ tag.toList) (hname : '/' ∉ name.toList)
    (n : Nat) : segments ⟨temporaryNameOf tag name n⟩ = [temporaryNameOf tag name n] ∧
      IsBelow (temporaryNameOf tag name n) := by
  have hslash : '/' ∉ (temporaryNameOf tag name n).toList := by
    simp only [temporaryNameOf, String.toList_append, List.mem_append, not_or]
    exact ⟨⟨⟨⟨⟨⟨by decide, hname⟩, by decide⟩, htag⟩, by decide⟩, Text.slash_not_mem_toString n⟩,
      by decide⟩
  have hs : segments ⟨temporaryNameOf tag name n⟩ = [temporaryNameOf tag name n] := by
    have hjoin := Path.segments_join (List.cons_ne_nil (temporaryNameOf tag name n) [])
      (by simpa using hslash)
    exact hjoin
  refine ⟨hs, fun s hm => ?_⟩
  rw [hs] at hm
  rw [List.mem_singleton.1 hm]
  exact Path.goesDown_append (by decide) _

/-- The temporary file beside such a file is in one place only. -/
theorem PassesTo.location_temporaryPath (h : fs.PassesTo p base) (hn : fs.NoLinksBelow base)
    (htag : '/' ∉ fs.processTag.toList) (hf : IsBelow file) (hs : segments ⟨file⟩ = init ++ [name])
    (hd : fs.PassesTo (p.child file).directory directory)
    (hl : fs.LeadsTo (fs.temporaryPath (p.child file) name) l) :
    l = base ++ init ++ [temporaryNameOf fs.processTag name fs.temporaries] := by
  have hname : '/' ∉ name.toList := Path.not_mem_of_mem_segments (p := ⟨file⟩) (by simp [hs])
  obtain ⟨hsegments, hbelow⟩ := isBelow_temporaryNameOf htag hname fs.temporaries
  obtain rfl := h.location_directory_child hn hf hs hd
  rw [hd.location_child (hn.append init) hbelow hl, hsegments]

end FileSystem

/-! ### One attempt -/

namespace Server

open FileSystem
open FileSystem.Action (answer filesAfter)
open FileRoutes.Path (IsBelow segments)

/-- The output directory of a run is there, and no link is below it. -/
structure Ready (output : Path) (base : Location) (fs : FileSystem) : Prop where
  /-- Everything stands in a directory. -/
  grounded : fs.Grounded
  /-- The output directory is there. -/
  leads : fs.PassesTo output base
  /-- No link is below it. -/
  noLinks : fs.NoLinksBelow base
  /-- The word for the process can be part of a name. -/
  tag : '/' ∉ fs.processTag.toList

variable {output : Path} {base l : Location} {file : String} {a : Attempt}

theorem Ready.grows {fs made : FileSystem} (h : Ready output base fs) (hg : Grows fs made) :
    Ready output base made :=
  ⟨hg.grounded h.grounded, h.leads.kept hg.keepsWays, hg.noLinksBelow h.noLinks,
    hg.processTag ▸ h.tag⟩

/-- How an attempt at a module below the output directory ends: directories are made for it, and
then at most a temporary file is gone, or the module has its whole text. -/
theorem Attempt.after_below (h : Ready output base a.files) (hplace : a.place = output.child file)
    (hf : IsBelow file) :
    Grows a.files a.prepared ∧
    ((a.succeeds = false ∧ SameFiles a.prepared a.after) ∨
    ∃ t, IsTemporaryFor a.files.processTag a.prepared.temporaries base file t ∧
      a.prepared.entry? t ≠ some .directory ∧
      ((a.succeeds = false ∧ SameFiles (a.prepared.remove t) a.after) ∨
      (a.succeeds = true ∧ a.prepared.entry? (base ++ segments ⟨file⟩) ≠ some .directory ∧
        (∃ directory name, base ++ segments ⟨file⟩ = directory ++ [name] ∧ IsName name ∧
          a.prepared.entry? directory = some .directory) ∧
        SameFiles ((a.prepared.remove t).place (base ++ segments ⟨file⟩) (.file (.text a.text)))
          a.after))) := by
  have hgrows : Grows a.files a.prepared := grows_ensureDirectory h.grounded _
  refine ⟨hgrows, ?_⟩
  obtain ⟨hfailed, hafter⟩ | ⟨hmade, hsucceeds, hafter⟩ := a.after_cases
  · exact .inl ⟨hfailed, hafter ▸ .refl _⟩
  · have hready := h.grows hgrows
    obtain ⟨init, name, hs, hname⟩ := hf.exists_name
    obtain ⟨directory, hdirectory⟩ := passesTo_ensureDirectory h.grounded hmade
    change a.prepared.PassesTo _ _ at hdirectory
    rw [hplace] at hdirectory
    have hfile : a.place.fileName? = some name := by
      obtain ⟨before, hjoin⟩ := Path.exists_segments_join hf.not_isAbsolute output
      have hsegments : a.place.segments = (before ++ init) ++ [name] := by
        rw [hplace, Path.child, hjoin, hs, List.append_assoc]
      exact Path.fileName_of_segments hsegments hname
    have htemporary : IsTemporaryFor a.files.processTag a.prepared.temporaries base file
        (base ++ init ++ [temporaryNameOf a.prepared.processTag name a.prepared.temporaries]) :=
      ⟨init, name, hs, by rw [hgrows.processTag]⟩
    have hwriting := writing_writeFile hready.grounded hfile a.text
    rw [← hafter, hplace] at hwriting
    rw [hplace] at hsucceeds
    have hfailed : ∀ e, answer (writeFile (output.child file) a.text) a.prepared = .error e →
        a.succeeds = false := fun e hr => Bool.eq_false_iff.2 fun hs => by
      rw [hsucceeds.1 hs] at hr
      cases hr
    obtain ⟨e, hr, hsame | ⟨hno, hsame⟩⟩ | ⟨hr, hno, htarget, hparent, hsame⟩ :=
      hwriting.plain hready.grounded
        (fun l => hready.leads.location_temporaryPath hready.noLinks hready.tag hf hs hdirectory)
        (fun l => hready.leads.location_child hready.noLinks hf)
    · exact .inl ⟨hfailed e hr, hsame⟩
    · exact .inr ⟨_, htemporary, hno, .inl ⟨hfailed e hr, hsame⟩⟩
    · exact .inr ⟨_, htemporary, hno, .inr ⟨hsucceeds.2 hr, htarget, hparent, hsame⟩⟩

/-- What stands where nothing but the new directories and a missing file make the difference. -/
theorem entry_remove_of_grows {fs made : FileSystem} (hg : Grows fs made) {t : Location}
    (ht : made.entry? t ≠ some .directory) (l : Location) :
    entry? (made.remove t) l = fs.entry? l ∨
    (fs.entry? l = none ∧ entry? (made.remove t) l = some .directory) ∨
    (l = t ∧ fs.entry? l ≠ none ∧ fs.entry? l ≠ some .directory ∧
      entry? (made.remove t) l = none) := by
  by_cases hl : l = t
  · subst hl
    rw [entry_remove_self _ (ne_root_of_entry ht)]
    by_cases he : fs.entry? l = none
    · exact .inl he.symm
    · exact .inr (.inr ⟨rfl, he, fun hd => ht (hg.entry_kept hd), rfl⟩)
  · rw [entry_remove_of_ne _ hl]
    exact (hg.entry_cases l).imp_right .inl

/-- What an attempt leaves at a location: what it finds there, a new directory, the whole text of
the module, or nothing in place of a temporary file. -/
theorem Attempt.entry_after (h : Ready output base a.files) (hplace : a.place = output.child file)
    (hf : IsBelow file) (l : Location) :
    a.after.entry? l = a.files.entry? l ∨
    (a.files.entry? l = none ∧ a.after.entry? l = some .directory) ∨
    (a.succeeds = true ∧ l = base ++ segments ⟨file⟩ ∧ a.files.entry? l ≠ some .directory ∧
      a.after.entry? l = some (.file (.text a.text))) ∨
    (IsTemporaryFor a.files.processTag a.prepared.temporaries base file l ∧
      a.files.entry? l ≠ none ∧ a.files.entry? l ≠ some .directory ∧
      a.after.entry? l = none) := by
  obtain ⟨hgrows, ⟨-, hsame⟩ | ⟨t, ht, hno, hcases⟩⟩ := Attempt.after_below h hplace hf
  · rw [hsame.entry]
    exact (hgrows.entry_cases l).imp_right .inl
  · have hremoved := entry_remove_of_grows hgrows hno l
    have htemporary : l = t →
        IsTemporaryFor a.files.processTag a.prepared.temporaries base file l := fun hl => hl ▸ ht
    obtain ⟨-, hsame⟩ | ⟨hsucceeds, htarget, -, hsame⟩ := hcases
    · rw [hsame.entry]
      exact hremoved.imp_right (.imp_right fun hc => .inr (hc.imp_left htemporary))
    · rw [hsame.entry]
      by_cases hl : l = base ++ segments ⟨file⟩
      · refine .inr (.inr (.inl ⟨hsucceeds, hl, fun hd => ?_, ?_⟩))
        · exact htarget (hl ▸ hgrows.entry_kept hd)
        · rw [hl]
          exact entry_place_self _ (ne_root_of_entry htarget) _
      · rw [entry_place_of_ne _ hl]
        exact hremoved.imp_right (.imp_right fun hc => .inr (hc.imp_left htemporary))

/-- An attempt takes no directory away that is there once its own has been made. -/
theorem Attempt.directory_after (h : Ready output base a.files)
    (hplace : a.place = output.child file) (hf : IsBelow file)
    (hd : a.prepared.entry? l = some .directory) : a.after.entry? l = some .directory := by
  obtain ⟨-, ⟨-, hsame⟩ | ⟨t, -, hno, ⟨-, hsame⟩ | ⟨-, htarget, -, hsame⟩⟩⟩ :=
    Attempt.after_below h hplace hf
  · rwa [hsame.entry]
  · rw [hsame.entry]
    exact directory_remove hno hd
  · have hne : l ≠ base ++ segments ⟨file⟩ := by
      rintro rfl
      exact htarget hd
    rw [hsame.entry, entry_place_of_ne _ hne]
    exact directory_remove hno hd

namespace Ready

variable {fs fs' : FileSystem}

theorem same (h : Ready output base fs) (hs : SameFiles fs fs') : Ready output base fs' := by
  have hkeeps : KeepsWays fs fs' :=
    ⟨⟨hs.here, fun l hl => (hs.entry l).trans hl⟩, fun l target hl => (hs.entry l).trans hl⟩
  exact ⟨hs.grounded h.grounded, h.leads.kept hkeeps,
    fun rel target hrel he => h.noLinks rel target hrel ((hs.entry _).symm.trans he),
    hs.tag ▸ h.tag⟩

/-- A file below the output directory can be taken away. -/
theorem remove (h : Ready output base fs) {rel : Location} (hrel : rel ≠ [])
    (hno : fs.entry? (base ++ rel) ≠ some .directory) :
    Ready output base (fs.remove (base ++ rel)) := by
  have hkeeps : KeepsWays fs (fs.remove (base ++ rel)) := by
    refine ⟨⟨rfl, fun l => directory_remove hno⟩, fun l target hl => ?_⟩
    have hne : l ≠ base ++ rel := by
      rintro rfl
      exact h.noLinks rel target hrel hl
    rwa [entry_remove_of_ne _ hne]
  refine ⟨h.grounded.remove hno, h.leads.kept hkeeps, fun more target hmore he => ?_, h.tag⟩
  by_cases hl : base ++ more = base ++ rel
  · rw [hl, entry_remove_self _ (ne_root_of_entry hno)] at he
    cases he
  · rw [entry_remove_of_ne _ hl] at he
    exact h.noLinks more target hmore he

/-- A file can be put below the output directory, where no directory is. -/
theorem place (h : Ready output base fs) {rel directory : Location} {name : String}
    (hrel : rel ≠ []) (hl : base ++ rel = directory ++ [name])
    (hd : fs.entry? directory = some .directory)
    (hno : fs.entry? (base ++ rel) ≠ some .directory) (content : Content) :
    Ready output base (fs.place (base ++ rel) (.file content)) := by
  have hkeeps := (SameWays.of_place hno (fun target => h.noLinks rel target hrel) content).keepsWays
  refine ⟨?_, h.leads.kept hkeeps, fun more target hmore he => ?_, h.tag⟩
  · rw [hl] at hno ⊢
    exact h.grounded.place hd fun he => absurd he hno
  · by_cases heq : base ++ more = base ++ rel
    · rw [heq, entry_place_self _ (ne_root_of_entry hno)] at he
      cases he
    · rw [entry_place_of_ne _ heq] at he
      exact h.noLinks more target hmore he

/-- An attempt leaves the output directory as the next attempt needs it. -/
theorem after (h : Ready output base a.files) (hplace : a.place = output.child file)
    (hf : IsBelow file) :
    Ready output base a.after ∧ a.after.processTag = a.files.processTag := by
  obtain ⟨hgrows, ⟨-, hsame⟩ | ⟨t, ht, hno, hcases⟩⟩ := Attempt.after_below h hplace hf
  · exact ⟨(h.grows hgrows).same hsame, hsame.tag.trans hgrows.processTag⟩
  · obtain ⟨rel, hrel, rfl⟩ := ht.exists_below
    have hremoved := (h.grows hgrows).remove hrel hno
    obtain ⟨-, hsame⟩ | ⟨-, htarget, ⟨directory, name, hl, -, hd⟩, hsame⟩ := hcases
    · exact ⟨hremoved.same hsame, hsame.tag.trans hgrows.processTag⟩
    · have hne : segments ⟨file⟩ ≠ [] := Path.segments_ne_nil _
      have hnoTarget : entry? (a.prepared.remove (base ++ rel)) (base ++ segments ⟨file⟩) ≠
          some .directory := by
        by_cases he : base ++ segments ⟨file⟩ = base ++ rel
        · rw [he, entry_remove_self _ (ne_root_of_entry hno)]
          simp
        · rwa [entry_remove_of_ne _ he]
      exact ⟨(hremoved.place hne hl (directory_remove hno hd) hnoTarget _).same hsame,
        hsame.tag.trans hgrows.processTag⟩

end Ready

/-! ### Names of modules -/

theorem exists_stem_of_mem_candidatePaths {stem p : String} {n : Nat}
    (h : p ∈ candidatePaths stem n) : ∃ start, p = start ++ ".ts" := by
  rcases List.mem_cons.1 h with rfl | h
  · exact ⟨stem, rfl⟩
  · rcases List.mem_cons.1 h with rfl | h
    · exact ⟨stem ++ "_router", by rw [String.append_assoc]; rfl⟩
    · obtain ⟨k, -, rfl⟩ := List.mem_map.1 h
      exact ⟨_, rfl⟩

theorem exists_stem_of_mem_modulePathsFrom {taken folders : List String} {p : String}
    (h : p ∈ modulePathsFrom taken folders) : ∃ start, p = start ++ ".ts" := by
  induction folders generalizing taken with
  | nil => simp [modulePathsFrom] at h
  | cons folder rest ih =>
    rcases List.mem_cons.1 h with rfl | h
    · exact exists_stem_of_mem_candidatePaths (modulePath_spec taken folder).1
    · exact ih h

namespace Course

variable {c : Course}

/-- The name of every module ends in the same way. -/
theorem exists_segments_of_mem_artifactFiles (h : file ∈ c.artifactFiles) :
    ∃ init stem, segments ⟨file⟩ = init ++ [stem ++ ".ts"] := by
  have hstem : ∃ start, file = start ++ ".ts" := by
    rcases List.mem_cons.1 h with rfl | h
    · exact ⟨"middleware", by decide⟩
    · rcases List.mem_cons.1 h with rfl | h
      · exact ⟨"index", by decide⟩
      · exact exists_stem_of_mem_modulePathsFrom h
  obtain ⟨start, rfl⟩ := hstem
  exact Text.exists_split_append ".ts" (by decide) start

/-- No temporary file has the name of a module. -/
theorem not_isTemporaryFor {tag other : String} {n : Nat} {base' : Location}
    (h : file ∈ c.artifactFiles) :
    ¬ IsTemporaryFor tag n base' other (base ++ segments ⟨file⟩) := by
  rintro ⟨init, name, -, he⟩
  obtain ⟨before, stem, hsegments⟩ := exists_segments_of_mem_artifactFiles h
  rw [hsegments, ← List.append_assoc] at he
  have hlast : stem ++ ".ts" = temporaryNameOf tag name n :=
    List.singleton_inj.1 (List.append_inj' he rfl).2
  unfold temporaryNameOf at hlast
  generalize "." ++ name ++ "." ++ tag ++ "." ++ toString n = front at hlast
  have hchars := congrArg (fun s : String => s.toList.getLast?) hlast
  simp at hchars

/-- What can become of what stands at a location in a run. -/
inductive Becomes (c : Course) (l : Location) : Option Entry → Option Entry → Prop
  /-- It stays. -/
  | kept (e : Option Entry) : Becomes c l e e
  /-- A directory is made where nothing was. -/
  | made : Becomes c l none (some .directory)
  /-- A file gets the whole text of a module that is written there. -/
  | written (base : Location) (file text : String) (m : Emit.Generated) (before : Option Entry)
      (output : c.opened.files.PassesTo c.options.outputPath base)
      (artifact : file ∈ c.artifactFiles) (spelled : l = base ++ segments ⟨file⟩)
      (free : before = none ∨ ∃ content, before = some (.file content))
      (recorded : (c.place file, m) ∈ c.final.written) (rendered : m.render = .ok text) :
      Becomes c l before (some (.file (.text text)))
  /-- A file is taken away that has the name of a temporary file of the process. -/
  | cleared (base : Location) (file : String) (n : Nat) (content : Content)
      (after : Option Entry) (output : c.opened.files.PassesTo c.options.outputPath base)
      (artifact : file ∈ c.artifactFiles)
      (temporary : IsTemporaryFor c.files.processTag n base file l)
      (gone : after = none ∨ after = some .directory) : Becomes c l (some (.file content)) after

/-- A directory can be made where nothing is left. -/
theorem Becomes.then_made {l : Location} {before : Option Entry} (hb : c.Becomes l before none) :
    c.Becomes l before (some .directory) := by
  cases hb with
  | kept => exact .made
  | cleared base file n content _ output artifact temporary gone =>
    exact .cleared base file n content _ output artifact temporary (.inr rfl)

/-- Whatever has become of a location where no directory is, a module can be written there. -/
theorem Becomes.then_written (houtput : c.opened.files.PassesTo c.options.outputPath base)
    (hfile : file ∈ c.artifactFiles) {m : Emit.Generated} {text : String}
    (hrecorded : (c.place file, m) ∈ c.final.written) (hrendered : m.render = .ok text)
    {before current : Option Entry} (hb : c.Becomes (base ++ segments ⟨file⟩) before current)
    (hfree : current = none ∨ ∃ content, current = some (.file content)) :
    c.Becomes (base ++ segments ⟨file⟩) before (some (.file (.text text))) := by
  have hwritten := fun hfree => Becomes.written (c := c) base file text m before houtput hfile rfl
    hfree hrecorded hrendered
  cases hb with
  | kept => exact hwritten hfree
  | made => simp at hfree
  | written _ _ _ _ _ _ _ _ free => exact hwritten free
  | cleared _ _ _ content => exact hwritten (.inr ⟨content, rfl⟩)

/-- Whatever has become of a file with the name of a temporary file, it can be taken away. -/
theorem Becomes.then_gone (houtput : c.opened.files.PassesTo c.options.outputPath base)
    (hfile : file ∈ c.artifactFiles) {n : Nat} {l : Location}
    (htemporary : IsTemporaryFor c.files.processTag n base file l) {before : Option Entry}
    {content : Content} (hb : c.Becomes l before (some (.file content))) :
    c.Becomes l before none := by
  cases hb with
  | kept => exact .cleared base file n content none houtput hfile htemporary (.inl rfl)
  | written base' other text m _ output artifact spelled =>
    -- no module has the name of a temporary file
    exact absurd (spelled ▸ htemporary) (not_isTemporaryFor artifact)
  | cleared base' file' n' content' _ output artifact temporary gone =>
    exact .cleared base' file' n' content' none output artifact temporary (.inl rfl)

/-- What can become of a location in some attempts of a run and in the next one. -/
theorem Becomes.after (houtput : c.opened.files.PassesTo c.options.outputPath base)
    {before : Option Entry} (ha : a ∈ c.attempts) (h : Ready c.options.outputPath base a.files)
    (htag : a.files.processTag = c.files.processTag) {l : Location}
    (hb : c.Becomes l before (a.files.entry? l)) : c.Becomes l before (a.after.entry? l) := by
  obtain ⟨file, hfile, hplace⟩ := exists_file_of_mem_attempts ha
  obtain he | ⟨hfree, hd⟩ | ⟨hsucceeds, rfl, hno, htext⟩ | ⟨htemporary, hsome, hno, hgone⟩ :=
    Attempt.entry_after h hplace (isBelow_of_mem_artifactFiles hfile) l
  · rwa [he]
  · rw [hd]
    rw [hfree] at hb
    exact hb.then_made
  · have hrecorded : (c.place file, a.module) ∈ c.final.written :=
      mem_written_final_iff.2 ⟨a, ha, hsucceeds, by rw [← hplace]; rfl⟩
    rw [htext]
    exact hb.then_written houtput hfile hrecorded a.rendered
      (h.noLinks.free_or_file (Path.segments_ne_nil ⟨file⟩) hno)
  · obtain ⟨rel, hrel, rfl⟩ := htemporary.exists_below
    obtain ⟨content, hcontent⟩ := (h.noLinks.free_or_file hrel hno).resolve_left hsome
    rw [hgone]
    rw [hcontent] at hb
    exact hb.then_gone houtput hfile (htag ▸ htemporary)

theorem grows_opened (hg : c.files.Grounded) : Grows c.files c.opened.files := by
  rw [opened, (Run.ensureDirectory_answer c.options.outputPath c.start).2]
  exact grows_ensureDirectory hg _

/-- A run that goes on has its output directory. -/
theorem exists_ready (hopens : c.opens = true) (hg : c.files.Grounded)
    (htag : '/' ∉ c.files.processTag.toList)
    (hn : ∀ base, c.opened.files.PassesTo c.options.outputPath base → c.files.NoLinksBelow base) :
    ∃ base, c.opened.files.PassesTo c.options.outputPath base ∧
      Ready c.options.outputPath base c.opened.files := by
  have hgrows := grows_opened hg
  have hmade : answer (FileSystem.ensureDirectory c.options.outputPath) c.files = .ok () := by
    have htrue := (Bool.and_eq_true_iff.1 hopens).2
    cases ha : answer (FileSystem.ensureDirectory c.options.outputPath) c.files with
    | ok u => rfl
    | error e => simp [ha, Except.toBool] at htrue
  obtain ⟨base, hbase⟩ := passesTo_ensureDirectory hg hmade
  have houtput : c.opened.files.PassesTo c.options.outputPath base := by
    rwa [opened, (Run.ensureDirectory_answer c.options.outputPath c.start).2]
  exact ⟨base, houtput, hgrows.grounded hg, houtput, hgrows.noLinksBelow (hn base houtput),
    hgrows.processTag ▸ htag⟩

/-- Every attempt of a run finds its output directory, and what one attempt keeps is kept by all
of them. -/
theorem ready_of_mem_attempts {base : Location} (hopens : c.opens = true)
    (h : Ready c.options.outputPath base c.opened.files)
    {P : FileSystem → Prop} (hP : P c.opened.files)
    (hstep : ∀ a ∈ c.attempts, Ready c.options.outputPath base a.files →
      a.files.processTag = c.opened.files.processTag → P a.files → P a.after) :
    P c.final.files ∧ ∀ a ∈ c.attempts, Ready c.options.outputPath base a.files ∧ P a.files := by
  have hall := (chain_final hopens).invariant
    (P := fun fs => (Ready c.options.outputPath base fs ∧
      fs.processTag = c.opened.files.processTag) ∧ P fs) ⟨⟨h, rfl⟩, hP⟩
      fun a ha ⟨⟨hready, htag⟩, hPa⟩ => by
    obtain ⟨file, hfile, hplace⟩ := exists_file_of_mem_attempts ha
    obtain ⟨hafter, htag'⟩ := hready.after hplace (isBelow_of_mem_artifactFiles hfile)
    exact ⟨⟨hafter, htag'.trans htag⟩, hstep a ha hready htag hPa⟩
  exact ⟨hall.1.2, fun a ha => ⟨(hall.2 a ha).1.1, (hall.2 a ha).2⟩⟩

/-- What can become of a location in a run. -/
theorem becomes_final (hg : c.files.Grounded) (htag : '/' ∉ c.files.processTag.toList)
    (hn : ∀ base, c.opened.files.PassesTo c.options.outputPath base → c.files.NoLinksBelow base)
    (l : Location) : c.Becomes l (c.files.entry? l) (c.final.files.entry? l) := by
  have hgrows := grows_opened hg
  have hopened : c.Becomes l (c.files.entry? l) (c.opened.files.entry? l) := by
    obtain he | ⟨hnone, hd⟩ := hgrows.entry_cases l
    · rw [he]
      exact .kept _
    · rw [hnone, hd]
      exact .made
  obtain ⟨-, -, -, hf | hf⟩ | ⟨hopens, -⟩ := c.final_of_opens
  · rw [hf]
    exact .kept _
  · rwa [hf]
  · obtain ⟨base, houtput, hready⟩ := exists_ready hopens hg htag hn
    refine (ready_of_mem_attempts hopens hready
      (P := fun fs => c.Becomes l (c.files.entry? l) (fs.entry? l)) hopened ?_).1
    intro a ha hready htag' hb
    exact hb.after houtput ha hready (htag'.trans hgrows.processTag)

/-- A run that fails leaves the place of its entrypoint as it was, but for a new directory. -/
theorem entry_entrypoint_of_failed (hfailed : c.outcome = .failed) (hg : c.files.Grounded)
    (htag : '/' ∉ c.files.processTag.toList)
    (hn : ∀ base, c.opened.files.PassesTo c.options.outputPath base → c.files.NoLinksBelow base)
    {base : Location} (houtput : c.opened.files.PassesTo c.options.outputPath base) :
    c.final.files.entry? (base ++ [entrypointFile]) = c.files.entry? (base ++ [entrypointFile]) ∨
      (c.files.entry? (base ++ [entrypointFile]) = none ∧
        c.final.files.entry? (base ++ [entrypointFile]) = some .directory) := by
  have hentry : entrypointFile ∈ c.artifactFiles := by simp [artifactFiles]
  have hsegments : segments ⟨entrypointFile⟩ = [entrypointFile] := by decide
  have hb := becomes_final hg htag hn (base ++ [entrypointFile])
  generalize c.files.entry? (base ++ [entrypointFile]) = before at hb
  generalize c.final.files.entry? (base ++ [entrypointFile]) = after at hb
  cases hb with
  | kept => exact .inl rfl
  | made => exact .inr ⟨rfl, rfl⟩
  | written base' file text m _ output artifact spelled free recorded rendered =>
    obtain rfl := houtput.unique output
    have hfile : file = entrypointFile := by
      rw [← Text.join_split file, ← Text.join_split entrypointFile]
      exact congrArg (Text.join "/") ((List.append_cancel_left spelled).symm.trans hsegments.symm)
    obtain ⟨a, ha, hsucceeds, hrecord⟩ := mem_written_final_iff.1 recorded
    have hplace : a.place = c.place entrypointFile := by
      rw [← hfile]
      exact congrArg Prod.fst hrecord
    have hopens := (mem_attempts_cases ha).1
    rw [(outcome_eq_succeeded_iff c).2
      ⟨hopens, a, mem_entrypointAttempts ha hplace, hsucceeds⟩] at hfailed
    cases hfailed
  | cleared base' file n content _ output artifact temporary gone =>
    rw [← hsegments] at temporary
    exact absurd temporary (not_isTemporaryFor hentry)

/-- A file outside the output directory stays. -/
theorem Becomes.eq_of_outside {e : Entry} {after : Option Entry} {l : Location}
    (h : c.Becomes l (some e) after)
    (hout : ∀ base, c.opened.files.PassesTo c.options.outputPath base → ¬ base <+: l) :
    after = some e := by
  cases h with
  | kept => rfl
  | written base file text m _ output artifact spelled =>
    exact absurd (spelled ▸ List.prefix_append _ _) (hout base output)
  | cleared base file n content _ output artifact temporary =>
    obtain ⟨rel, -, rfl⟩ := temporary.exists_below
    exact absurd (List.prefix_append _ _) (hout base output)

/-! ### What a watcher sees -/

/-- The paths that a run writes: the places of the modules that it tries to write, and the
temporary files beside them. -/
inductive Touches (c : Course) : Path → Prop
  /-- The place of a module. -/
  | place (a : Attempt) (tried : a ∈ c.attempts) : Touches c a.place
  /-- The temporary file beside it. -/
  | temporary (a : Attempt) (name : String) (tried : a ∈ c.attempts)
      (named : a.place.fileName? = some name) :
      Touches c (a.prepared.temporaryPath a.place name)

/-- Whatever a run writes begins with its output directory. -/
theorem Touches.startsWith (hg : c.files.Grounded) (htag : '/' ∉ c.files.processTag.toList)
    (hn : ∀ base, c.opened.files.PassesTo c.options.outputPath base → c.files.NoLinksBelow base)
    {p : Path} (h : c.Touches p) : p.startsWith c.options.outputPath = true := by
  cases h with
  | place a tried =>
    obtain ⟨file, hfile, hplace⟩ := exists_file_of_mem_attempts tried
    rw [hplace]
    exact Path.startsWith_child (isBelow_of_mem_artifactFiles hfile) _
  | temporary a name tried named =>
    obtain ⟨file, hfile, hplace⟩ := exists_file_of_mem_attempts tried
    have hopens := (mem_attempts_cases tried).1
    obtain ⟨base, -, hready⟩ := exists_ready hopens hg htag hn
    obtain ⟨-, hall⟩ := ready_of_mem_attempts hopens hready (P := fun _ => True) trivial
      fun _ _ _ _ _ => trivial
    have hprepared : Ready c.options.outputPath base a.prepared :=
      (hall a tried).1.grows (grows_ensureDirectory (hall a tried).1.grounded _)
    have hname : '/' ∉ name.toList := by
      refine (Path.mem_names (p := a.place) (List.mem_filterMap.2 ?_)).2
      obtain ⟨component, hlast, hcomponent⟩ := Option.bind_eq_some_iff.1 named
      exact ⟨component, List.mem_of_getLast? hlast, hcomponent⟩
    have hbelow := (isBelow_temporaryNameOf hprepared.tag hname a.prepared.temporaries).2
    rw [hplace]
    exact Path.startsWith_directory_child (isBelow_of_mem_artifactFiles hfile) hbelow _

/-- So nothing that a run writes matters to a watcher that ignores the output directory. -/
theorem Touches.not_matters (hg : c.files.Grounded) (htag : '/' ∉ c.files.processTag.toList)
    (hn : ∀ base, c.opened.files.PassesTo c.options.outputPath base → c.files.NoLinksBelow base)
    {p : Path} (h : c.Touches p) : Watch.matters c.options.outputPath p = false := by
  rw [Watch.matters, h.startsWith hg htag hn]
  rfl

/-! ### Containment -/

/-- A command without a config that can be loaded leaves the files as they are. -/
theorem files_generate_of_no_config {task : Command.Task} {s : Run.State}
    (h : ∀ path config, Config.file? s.files (task.options s.files).projectRoot = some path →
      Config.load s.files path ≠ .ok config) :
    ((Command.generate task).after s).files = s.files := by
  have hload : ∃ r, (Command.loadProject (task.options s.files).projectRoot).result s = .error r ∧
      ((Command.loadProject (task.options s.files).projectRoot).after s).files = s.files := by
    simp only [Command.loadProject, Run.result_bind, Run.after_bind, Run.result_files,
      Run.after_files]
    cases hf : Config.file? s.files (task.options s.files).projectRoot with
    | none => exact ⟨_, rfl, rfl⟩
    | some path =>
      cases hl : Config.load s.files path with
      | error e => exact ⟨_, by simp only [hl]; rfl, by simp only [hl]; rfl⟩
      | ok config => exact absurd hl (h path config hf)
  obtain ⟨r, hr, hafter⟩ := hload
  simp only [Command.generate, Run.after_bind, Run.result_files, Run.after_files, hr]
  exact hafter

/-- A run changes no file outside its output directory, and what it changes inside are its
modules, each of which has its whole text, and temporary files of its own process. A run that
fails leaves the entrypoint as it was, but for a directory that is made there. A command without
a config that can be loaded changes nothing. What a run writes is ignored by a watcher that
ignores the output directory. -/
theorem run_contained (hg : c.files.Grounded) (htag : '/' ∉ c.files.processTag.toList)
    (hn : ∀ base, c.opened.files.PassesTo c.options.outputPath base → c.files.NoLinksBelow base) :
    (∀ l e, (∀ base, c.opened.files.PassesTo c.options.outputPath base → ¬ base <+: l) →
      c.files.entry? l = some e → c.final.files.entry? l = some e) ∧
    (∀ l, c.Becomes l (c.files.entry? l) (c.final.files.entry? l)) ∧
    (c.outcome = .failed → ∀ base, c.opened.files.PassesTo c.options.outputPath base →
      c.final.files.entry? (base ++ [entrypointFile]) =
          c.files.entry? (base ++ [entrypointFile]) ∨
        (c.files.entry? (base ++ [entrypointFile]) = none ∧
          c.final.files.entry? (base ++ [entrypointFile]) = some .directory)) ∧
    (∀ task : Command.Task,
      (∀ path config, Config.file? c.files (task.options c.files).projectRoot = some path →
        Config.load c.files path ≠ .ok config) →
      ((Command.generate task).after c.start).files = c.files) ∧
    (∀ (channel : Watch.Channel), (∀ p ∈ channel.queue, c.Touches p) →
      (Watch.nextBatch c.options.outputPath channel).1 =
        if channel.closed then some .closed else none) ∧
    (∀ (channel : Watch.Channel) changes,
      (Watch.nextBatch c.options.outputPath channel).1 = some (.paths changes) →
        ∀ p ∈ changes, ¬ c.Touches p) := by
  refine ⟨fun l e hout he => ?_, becomes_final hg htag hn, fun hfailed base houtput =>
    entry_entrypoint_of_failed hfailed hg htag hn houtput,
    fun task hload => files_generate_of_no_config hload, fun channel hall => ?_,
    fun channel changes hbatch p hp htouches => ?_⟩
  · exact (he ▸ becomes_final hg htag hn l).eq_of_outside hout
  · have hnone : channel.queue.filter (Watch.matters c.options.outputPath) = [] := by
      refine List.filter_eq_nil_iff.2 fun p hp => ?_
      rw [(hall p hp).not_matters hg htag hn]
      decide
    rw [Watch.nextBatch_eq, hnone]
  · obtain ⟨-, rfl⟩ := Watch.nextBatch_eq_paths_iff.1 hbatch
    have hmatters := (List.mem_filter.1 hp).2
    rw [htouches.not_matters hg htag hn] at hmatters
    cases hmatters

/-! ### Runs on one folder -/

/-- Without middleware, a run on one folder tries its router and then the entrypoint. -/
theorem attempts_of_single {pair : ApiFolder × String} (hf : c.folders = [pair])
    (hm : c.config.middlewareFolder = none) (hopens : c.opens = true) :
    c.attempts = (turnOf c.options none pair c.opened).attempts ++ c.entrypointAttempts := by
  have hknown : c.known = none ∧ c.collected = c.opened := by
    simp only [known, collected, collectMiddleware, hm]
    exact ⟨rfl, rfl⟩
  have hturns : c.turns = [turnOf c.options none pair c.opened] := by
    rw [turns, hf, hknown.1, hknown.2, Server.turns]
    simp only [Server.turns, ite_self]
    rfl
  rw [attempts, if_pos hopens, hturns]
  simp [tableAttempts, hm]

/-- A run on a project in the root with one folder of handlers, which writes to `/out`. -/
def folderRun (directory : String) (files : FileSystem) : Course where
  options := ⟨⟨"/"⟩, ⟨"out"⟩⟩
  config := { apiFolders := [⟨directory, "/a", none⟩], port := 3000 }
  files := files

/-- The run begins in its output directory, if that is there. -/
theorem folderRun_opened (directory : String) {files : FileSystem} (hg : files.Grounded)
    (hn : files.NoLinks) (hd : files.entry? ["out"] = some .directory)
    (htag : '/' ∉ files.processTag.toList) :
    (folderRun directory files).opens = true ∧ (folderRun directory files).opened.files = files ∧
      Ready ⟨"/out"⟩ ["out"] files := by
  have houtput : GenerateOptions.outputPath ⟨⟨"/"⟩, ⟨"out"⟩⟩ = ⟨"/out"⟩ := by decide
  have hspells : FileSystem.Spells ⟨"/out"⟩ ["out"] := by decide
  have hends : files.EndsIn ⟨"/out"⟩ [] "out" := hspells.endsIn_root
  obtain ⟨ha, hf⟩ := FileSystem.ensureDirectory_of_directory hends hn hd
  have hleads : files.PassesTo ⟨"/out"⟩ ["out"] :=
    passesTo_of_locate (hends.locate_of_entry hn hd true) hd
  refine ⟨?_, ?_, hg, hleads, hn.below _, htag⟩
  · have hmixed : isMixed ⟨⟨"/"⟩, ⟨"out"⟩⟩ = false := by decide
    show (!isMixed ⟨⟨"/"⟩, ⟨"out"⟩⟩ && (answer (FileSystem.ensureDirectory
      (GenerateOptions.outputPath ⟨⟨"/"⟩, ⟨"out"⟩⟩)) files).toBool) = true
    rw [hmixed, houtput, ha]
    rfl
  · rw [opened, (Run.ensureDirectory_answer _ _).2]
    show filesAfter (FileSystem.ensureDirectory
      (GenerateOptions.outputPath ⟨⟨"/"⟩, ⟨"out"⟩⟩)) files = files
    rw [houtput]
    exact hf

/-- The files of a project with a handler in a folder below one called `index.ts`. -/
def nestedFiles : FileSystem where
  entries := [(["out"], .directory), (["index.ts"], .directory), (["index.ts", "foo"], .directory),
    (["index.ts", "foo", "ping.ts"], .file (.text "export default function handler() \x7b\x7d"))]

/-- The files of a project in which a temporary file was left behind. -/
def staleFiles : FileSystem where
  entries := [(["out"], .directory), (["out", ".api.ts..0.tmp"], .file (.text "")),
    (["api"], .directory),
    (["api", "ping.ts"], .file (.text "export default function handler() \x7b\x7d"))]

/-- A run on the first project. -/
def nestedRun : Course := folderRun "index.ts/foo" nestedFiles

/-- A run on the second project. -/
def staleRun : Course := folderRun "api" staleFiles

theorem nestedFiles_noLinks : nestedFiles.NoLinks := noLinks_of_entries (by simp [nestedFiles])

theorem staleFiles_noLinks : staleFiles.NoLinks := noLinks_of_entries (by simp [staleFiles])

theorem nestedFiles_manifest :
    (Manifest.scan nestedFiles .handler ⟨"/index.ts/foo"⟩).manifest ≠ [] := by
  rw [Manifest.scan_of_source ⟨"/index.ts/foo/"⟩ ⟨"/index.ts/foo/ping.ts"⟩ "ping.ts" _
    (by decide) (by decide) (by cbv) (by cbv) (by cbv) (by cbv)
    (by decide) parse_handler]
  decide

theorem staleFiles_manifest : (Manifest.scan staleFiles .handler ⟨"/api"⟩).manifest ≠ [] := by
  rw [Manifest.scan_of_source ⟨"/api/"⟩ ⟨"/api/ping.ts"⟩ "ping.ts" _ (by decide)
    (by decide) (by cbv) (by cbv) (by cbv) (by cbv) (by decide) parse_handler]
  decide

/-- The folder of the run is scanned once, at the start. -/
theorem folderRun_attempts {directory file : String} {root : Path} {files : FileSystem}
    (hopens : (folderRun directory files).opens = true)
    (hopened : (folderRun directory files).opened.files = files)
    (hfile : modulePaths [directory] = [file])
    (hroot : GenerateOptions.resolve ⟨⟨"/"⟩, ⟨"out"⟩⟩ directory = root)
    (hm : (Manifest.scan files .handler root).manifest ≠ []) :
    ∃ a : Attempt, (folderRun directory files).attempts =
        a :: (folderRun directory files).entrypointAttempts ∧
      a.files = files ∧ a.place = Path.child ⟨"/out"⟩ file := by
  have houtput : GenerateOptions.outputPath ⟨⟨"/"⟩, ⟨"out"⟩⟩ = ⟨"/out"⟩ := by decide
  have hfolders : (folderRun directory files).folders = [(⟨directory, "/a", none⟩, file)] := by
    show List.zip [_] (modulePaths [directory]) = _
    rw [hfile]
    rfl
  have hattempts := attempts_of_single hfolders rfl hopens
  generalize ht : turnOf (folderRun directory files).options none
    (⟨directory, "/a", none⟩, file) (folderRun directory files).opened = t at hattempts
  have hmanifest : t.manifest ≠ [] := by
    rw [← ht, Turn.manifest]
    show (Manifest.scan (folderRun directory files).opened.files .handler
      (GenerateOptions.resolve ⟨⟨"/"⟩, ⟨"out"⟩⟩ directory)).manifest ≠ []
    rwa [hopened, hroot]
  rw [Turn.attempts_of_ne hmanifest] at hattempts
  refine ⟨t.attempt, hattempts, ?_, ?_⟩
  · rw [← ht]
    exact hopened
  · rw [← ht, ← houtput]
    rfl

/-- Once a directory stands in place of the entrypoint, the run fails and the directory stays. -/
theorem failed_of_directory {a : Attempt} {base : Location} (hopens : c.opens = true)
    (hattempts : c.attempts = a :: c.entrypointAttempts)
    (h : Ready c.options.outputPath base a.after)
    (hd : a.after.entry? (base ++ [entrypointFile]) = some .directory) :
    c.outcome = .failed ∧ c.final.files.entry? (base ++ [entrypointFile]) = some .directory := by
  have hchain := chain_final hopens
  rw [hattempts] at hchain
  obtain ⟨-, hrest⟩ := hchain
  have hiff := c.outcome_eq_succeeded_iff
  have hbelow : IsBelow entrypointFile := by decide
  by_cases hrouters : c.mounted.routers = []
  · rw [entrypointAttempts_of_nil hrouters] at hrest hiff
    rw [show c.final.files = a.after from hrest]
    refine ⟨?_, hd⟩
    cases ho : c.outcome with
    | failed => rfl
    | succeeded => simpa using (hiff.1 ho).2
  · rw [entrypointAttempts_of_ne hrouters] at hrest hiff
    obtain ⟨hfiles, hfinal⟩ := hrest
    rw [← hfiles] at h hd
    have hafter := Attempt.after_below h rfl hbelow
    have hprepared := hafter.1.entry_kept hd
    rw [show c.final.files = c.entrypointAttempt.after from hfinal]
    refine ⟨?_, Attempt.directory_after h rfl hbelow hprepared⟩
    cases ho : c.outcome with
    | failed => rfl
    | succeeded =>
      obtain ⟨-, e, he, hsucceeds⟩ := hiff.1 ho
      obtain rfl := List.mem_singleton.1 he
      obtain ⟨-, ⟨hno, -⟩ | ⟨t, -, -, ⟨hno, -⟩ | ⟨-, htarget, -⟩⟩⟩ := hafter
      · simp [hsucceeds] at hno
      · simp [hsucceeds] at hno
      · exact absurd hprepared htarget

theorem run_contained_sample : nestedFiles.Grounded ∧ '/' ∉ nestedFiles.processTag.toList ∧
    nestedFiles.NoLinks ∧ nestedRun.final.files.entry? ["index.ts", "foo", "ping.ts"] =
      some (.file (.text "export default function handler() \x7b\x7d")) := by
  have hg : nestedFiles.Grounded := (by decide +kernel : nestedFiles.IsTree).toGrounded
  have hn := nestedFiles_noLinks
  obtain ⟨-, hopened, hready⟩ := folderRun_opened "index.ts/foo" hg hn (by decide) (by decide)
  refine ⟨hg, by decide, hn, (run_contained (c := nestedRun) hg (by decide)
    fun base _ => hn.below base).1 _ _ (fun base houtput => ?_) (by decide)⟩
  have hoptions : nestedRun.options.outputPath = ⟨"/out"⟩ := by decide
  rw [hoptions, show nestedRun.opened.files = nestedFiles from hopened] at houtput
  rw [houtput.unique hready.leads]
  decide

/-- What is gone once the router has been written is not made a file again. -/
theorem gone_of_gone {a : Attempt} {base : Location} (hopens : c.opens = true)
    (hattempts : c.attempts = a :: c.entrypointAttempts)
    (h : Ready c.options.outputPath base a.after) {l : Location}
    (hl : l ≠ base ++ [entrypointFile]) (hgone : a.after.entry? l = none) (content : Content) :
    c.final.files.entry? l ≠ some (.file content) := by
  have hchain := chain_final hopens
  rw [hattempts] at hchain
  obtain ⟨-, hrest⟩ := hchain
  obtain hnil | hone := c.entrypointAttempts_cases
  · rw [hnil] at hrest
    rw [show c.final.files = a.after from hrest, hgone]
    simp
  · rw [hone] at hrest
    obtain ⟨hfiles, hfinal⟩ := hrest
    rw [← hfiles] at h hgone
    rw [show c.final.files = c.entrypointAttempt.after from hfinal]
    have hbelow : IsBelow entrypointFile := by decide
    obtain he | ⟨-, hd⟩ | ⟨-, hspelled, -⟩ | ⟨-, hsome, -⟩ := Attempt.entry_after h rfl hbelow l
    · rw [he, hgone]
      simp
    · simp [hd]
    · exact absurd hspelled hl
    · exact absurd hgone hsome

/-- The first run makes a directory in place of its entrypoint, and fails. -/
theorem nestedRun_failed : nestedRun.outcome = .failed ∧
    nestedRun.final.files.entry? ["out", entrypointFile] = some .directory := by
  obtain ⟨hopens, hopened, hready⟩ := folderRun_opened "index.ts/foo"
    (by decide +kernel : nestedFiles.IsTree).toGrounded nestedFiles_noLinks (by decide) (by decide)
  obtain ⟨a, hattempts, hfiles, hplace⟩ := folderRun_attempts hopens hopened
    (by decide +kernel : modulePaths ["index.ts/foo"] = ["index.ts/foo.ts"])
    (by decide +kernel :
      GenerateOptions.resolve ⟨⟨"/"⟩, ⟨"out"⟩⟩ "index.ts/foo" = ⟨"/index.ts/foo"⟩)
    nestedFiles_manifest
  have hdirectory : a.place.directory = ⟨"/out/index.ts"⟩ := by
    rw [hplace]
    decide +kernel
  have hspells : FileSystem.Spells ⟨"/out/index.ts"⟩ (["out"] ++ ["index.ts"]) := by decide
  have hends : nestedFiles.EndsIn ⟨"/out/index.ts"⟩ ["out"] "index.ts" :=
    hspells.endsIn fun k => by
      cases k with
      | zero => rfl
      | succ k => simp; decide
  have hprepared : a.prepared.entry? ["out", "index.ts"] = some .directory := by
    rw [Attempt.prepared, hdirectory, hfiles,
      (FileSystem.ensureDirectory_of_free hends nestedFiles_noLinks rfl (by decide)).2]
    exact entry_place_self _ (by simp) _
  rw [← hfiles] at hready
  have hbelow : IsBelow "index.ts/foo.ts" := by decide +kernel
  exact failed_of_directory hopens hattempts (hready.after hplace hbelow).1
    (Attempt.directory_after hready hplace hbelow hprepared)

/-- The second run takes the temporary file away that was left behind. -/
theorem staleRun_gone (content : Content) :
    staleRun.final.files.entry? ["out", ".api.ts..0.tmp"] ≠ some (.file content) := by
  obtain ⟨hopens, hopened, hready⟩ := folderRun_opened "api"
    (by decide +kernel : staleFiles.IsTree).toGrounded staleFiles_noLinks (by decide) (by decide)
  obtain ⟨a, hattempts, hfiles, hplace⟩ := folderRun_attempts hopens hopened
    (by decide +kernel : modulePaths ["api"] = ["api.ts"])
    (by decide +kernel : GenerateOptions.resolve ⟨⟨"/"⟩, ⟨"out"⟩⟩ "api" = ⟨"/api"⟩)
    staleFiles_manifest
  have hdirectory : a.place.directory = ⟨"/out"⟩ := by
    rw [hplace]
    decide +kernel
  have hout : FileSystem.Spells ⟨"/out"⟩ ([] ++ ["out"]) := by decide
  have hspells : FileSystem.Spells ⟨"/out/api.ts"⟩ (["out"] ++ ["api.ts"]) := by decide
  have htemporary : FileSystem.Spells ⟨"/out/.api.ts..0.tmp"⟩ (["out"] ++ [".api.ts..0.tmp"]) := by
    decide
  have hd : ∀ k, staleFiles.entry? (List.take k ["out"]) = some .directory := fun k => by
    cases k with
    | zero => rfl
    | succ k => simp; decide
  obtain ⟨hmade, hmadeFiles⟩ := FileSystem.ensureDirectory_of_directory
    (hout.endsIn fun k => by simp; rfl) staleFiles_noLinks
    (by decide : staleFiles.entry? ["out"] = _)
  have hjoin : Path.join (Path.directory ⟨"/out/api.ts"⟩) ⟨staleFiles.temporaryName "api.ts"⟩ =
      ⟨"/out/.api.ts..0.tmp"⟩ := by decide +kernel
  obtain ⟨-, hwritten⟩ := FileSystem.writeFile_of_ok
    (by decide +kernel : Path.fileName? ⟨"/out/api.ts"⟩ = some "api.ts") (hspells.endsIn hd)
    (by rw [hjoin]; exact htemporary.endsIn hd) staleFiles_noLinks rfl (by decide) (by decide)
    a.text
  have hgone : a.after.entry? ["out", ".api.ts..0.tmp"] = none := by
    rw [Attempt.after, deliver, Action.filesAfter_bind, hdirectory, hfiles, hmade, hmadeFiles,
      hplace, show Path.child ⟨"/out"⟩ "api.ts" = ⟨"/out/api.ts"⟩ by decide +kernel, hwritten]
    rw [List.singleton_append, List.singleton_append, entry_place_of_ne _ (by decide)]
    exact entry_remove_self _ (by simp)
  rw [← hfiles] at hready
  exact gone_of_gone hopens hattempts (hready.after hplace (by decide)).1 (by decide) hgone _

/-- A run that fails can leave a directory in place of the entrypoint, and a run can take a file
away that has the name of one of its temporary files. -/
theorem run_directory_sample :
    (nestedFiles.NoLinks ∧ nestedRun.outcome = .failed ∧
      nestedFiles.entry? ["out", entrypointFile] = none ∧
      nestedRun.final.files.entry? ["out", entrypointFile] = some .directory) ∧
    (staleFiles.NoLinks ∧
      staleFiles.entry? ["out", ".api.ts..0.tmp"] = some (.file (.text "")) ∧
      staleRun.final.files.entry? ["out", ".api.ts..0.tmp"] ≠ some (.file (.text ""))) :=
  ⟨⟨nestedFiles_noLinks, nestedRun_failed.1, by decide, nestedRun_failed.2⟩,
    staleFiles_noLinks, by decide, staleRun_gone _⟩

end Course

end Server

end FileRoutes
