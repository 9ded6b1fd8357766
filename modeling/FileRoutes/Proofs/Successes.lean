import FileRoutes.Proofs.Changes
import Mathlib.Data.List.Basic

/-!
# When files can be written

Writing can fail for many reasons. This module says when it does not: the path ends with a
name in a directory that is there, no directory is in the way of the file or of the temporary
file next to it, and the system refuses nothing. Then the file has the text, and nothing has the
temporary name.

## The model

* `EndsIn` — a path that ends with a name in a directory.
* `Spells` — an absolute path whose pieces are the names of a location.

## What is proved

* `ensureDirectory_of_directory`, `ensureDirectory_of_free` — a directory that is there is kept,
  and one whose name is free is made.
* `writeFile_of_ok` — a text is written where no directory is in the way.
-/

namespace FileRoutes.FileSystem

open FileRoutes.Path (GoesDown)

/-- The path ends with a name in a directory. -/
structure EndsIn (fs : FileSystem) (p : Path) (directory : Location) (name : String) : Prop where
  /-- The path is well-formed. -/
  check : checkPath p = .ok ()
  /-- What stands before the name leads to the directory. -/
  leads : ∃ init, p.segments = init ++ [name] ∧
    fs.Leads (startOf p.text fs.workingDirectory) (init ++ [""]) (.found directory)
  /-- The name is one that leads down. -/
  down : GoesDown name
  /-- The name is not too long. -/
  short : ¬ greatestName < name.utf8ByteSize

/-- The path is absolute and spells a location: its pieces are the names of the location, none
of which is too long. -/
def Spells (p : Path) (l : Location) : Prop :=
  checkPath p = .ok () ∧ p.segments = "" :: l ∧
    ∀ name ∈ l, GoesDown name ∧ ¬ greatestName < name.utf8ByteSize

instance (p : Path) (l : Location) : Decidable (Spells p l) :=
  inferInstanceAs (Decidable (_ ∧ _ ∧ _))

/-! ### Ends of paths -/

section ends

variable {fs fs' : FileSystem} {p : Path} {directory : Location} {name : String}

theorem resolve_of_locate {l : Location} (h : fs.locate true p = .ok (.found l)) :
    fs.resolve p = .ok l := by
  simp [resolve, h, bind, Except.bind, pure, Except.pure]

theorem entryAt_of_resolve {l : Location} {e : Entry} (h : fs.resolve p = .ok l)
    (he : fs.entry? l = some e) : fs.entryAt p = .ok e := by
  simp [entryAt, h, he, bind, Except.bind, pure, Except.pure]

/-- Names lead down through directories. -/
theorem leads_of_directories (here l : Location)
    (hplain : ∀ name ∈ l, GoesDown name ∧ ¬ greatestName < name.utf8ByteSize)
    (hd : ∀ k, fs.entry? (here ++ l.take k) = some .directory) :
    fs.Leads here (l ++ [""]) (.found (here ++ l)) := by
  induction l generalizing here with
  | nil =>
    rw [List.append_nil]
    exact .nothing (by decide) .here
  | cons name rest ih =>
    obtain ⟨hdown, hshort⟩ := hplain name List.mem_cons_self
    have hrest := ih (here ++ [name]) (fun n hn => hplain n (List.mem_cons_of_mem _ hn))
      fun k => by simpa using hd (k + 1)
    rw [List.append_cons here]
    exact .directory hdown hshort (by simpa using hd 1) hrest

/-- A path that spells a name in a directory ends with it there. -/
theorem Spells.endsIn (h : Spells p (directory ++ [name]))
    (hd : ∀ k, fs.entry? (directory.take k) = some .directory) : fs.EndsIn p directory name := by
  obtain ⟨hc, hsegments, hplain⟩ := h
  obtain ⟨hdown, hshort⟩ := hplain name (by simp)
  refine ⟨hc, ⟨"" :: directory, hsegments, ?_⟩, hdown, hshort⟩
  rw [Path.startOf_of_segments hsegments, if_pos (by simp)]
  refine .nothing (by decide) ?_
  exact leads_of_directories [] _ (fun n hn => hplain n (List.mem_append_left _ hn)) hd

/-- A path that spells one name ends with it in the root. -/
theorem Spells.endsIn_root (h : Spells p [name]) : fs.EndsIn p [] name := by
  have hspells : Spells p ([] ++ [name]) := h
  apply hspells.endsIn
  intro k
  rw [List.take_nil]
  rfl

/-- A path that spells two names ends with the second one in the directory that has the first. -/
theorem Spells.endsIn_folder {folder : String} (h : Spells p [folder, name])
    (hd : fs.entry? [folder] = some .directory) : fs.EndsIn p [folder] name := by
  have hspells : Spells p ([folder] ++ [name]) := h
  apply hspells.endsIn
  intro k
  cases k with
  | zero => rfl
  | succ k => simpa using hd

namespace EndsIn

theorem kept (h : fs.EndsIn p directory name) (hk : KeepsDirectories fs fs') :
    fs'.EndsIn p directory name := by
  obtain ⟨init, hsegments, hleads⟩ := h.leads
  refine ⟨h.check, ⟨init, hsegments, ?_⟩, h.down, h.short⟩
  rw [hk.here]
  exact hleads.append hk (.nothing (by decide) .here)

theorem ending (h : fs.EndsIn p directory name) (hn : fs.NoLinks) :
    fs.ending p = .ok ⟨directory, some name, false⟩ := by
  obtain ⟨init, hsegments, hleads⟩ := h.leads
  have hne : name ≠ "" := by
    rintro rfl
    exact absurd h.down (by decide)
  have hdots : ¬ (name = "." ∨ name = "..") := by
    rintro (rfl | rfl) <;> exact absurd h.down (by decide)
  have hcore : core p = init ++ [name] := by simp [core, hsegments, hne]
  have hlast : (core p).getLast? = some name := by rw [hcore, List.getLast?_concat]
  have hwalk : fs.walk true greatestLinks (startOf p.text fs.workingDirectory)
      ((core p).dropLast ++ [""]) = .ok (.found directory) := by
    rw [hcore, List.dropLast_concat]
    exact (walk_eq_ok_iff hn true greatestLinks).2 hleads
  rw [ending_of_found h.check hlast hwalk, if_neg hdots, if_neg h.short, hcore, hsegments]
  simp

/-- What stands at the name is what the path leads to. -/
theorem locate_of_entry (h : fs.EndsIn p directory name) (hn : fs.NoLinks) {e : Entry}
    (he : fs.entry? (directory ++ [name]) = some e) (last : Bool) :
    fs.locate last p = .ok (.found (directory ++ [name])) := by
  obtain ⟨init, hsegments, hleads⟩ := h.leads
  refine (locate_eq_ok_iff hn).2 ⟨h.check, ?_⟩
  rw [hsegments]
  refine hleads.append ⟨rfl, fun _ => id⟩ ?_
  cases e with
  | directory => exact .directory h.down h.short he .here
  | file content => exact .file h.down h.short he
  | link target => exact absurd he (hn _ target)

theorem locate_of_free (h : fs.EndsIn p directory name) (hn : fs.NoLinks)
    (he : fs.entry? (directory ++ [name]) = none) (last : Bool) :
    fs.locate last p = .ok (.free (directory ++ [name])) := by
  obtain ⟨init, hsegments, hleads⟩ := h.leads
  refine (locate_eq_ok_iff hn).2 ⟨h.check, ?_⟩
  rw [hsegments]
  exact hleads.append ⟨rfl, fun _ => id⟩ (.free h.down h.short he)

theorem text_ne (h : fs.EndsIn p directory name) : p.text ≠ "" := by
  intro he
  have hc := h.check
  simp [checkPath, he] at hc

theorem entryAt_of_entry (h : fs.EndsIn p directory name) (hn : fs.NoLinks) {e : Entry}
    (he : fs.entry? (directory ++ [name]) = some e) : fs.entryAt p = .ok e :=
  entryAt_of_resolve (resolve_of_locate (h.locate_of_entry hn he true)) he

end EndsIn

/-! ### Directories -/

open Action

/-- The directories that are made for a path begin with the path itself. -/
theorem ensureDirectory_eq (hp : p.text ≠ "") : ∃ above, ensureDirectory p =
    tryCatch (makeOrKeep p) fun e =>
      if e = .notFound then do
        ensureFirst above
        makeOrKeep p
      else throw e :=
  ⟨(p.parent?.map (ancestors p.text.length)).getD [], if_neg hp⟩

theorem ensureDirectory_of_ok (h : fs.EndsIn p directory name)
    (hok : answer (makeOrKeep p) fs = .ok ()) :
    answer (ensureDirectory p) fs = .ok () ∧
      filesAfter (ensureDirectory p) fs = filesAfter (makeOrKeep p) fs := by
  obtain ⟨above, he⟩ := ensureDirectory_eq h.text_ne
  rw [he, answer_tryCatch, filesAfter_tryCatch, hok]
  exact ⟨rfl, rfl⟩

/-- A directory that is there is kept. -/
theorem ensureDirectory_of_directory (h : fs.EndsIn p directory name) (hn : fs.NoLinks)
    (hentry : fs.entry? (directory ++ [name]) = some .directory) :
    answer (ensureDirectory p) fs = .ok () ∧ filesAfter (ensureDirectory p) fs = fs := by
  have hdirectory : fs.isDirectory p = .ok true := by
    simp [isDirectory, h.entryAt_of_entry hn hentry, bind, Except.bind, pure, Except.pure]
  have hmake : answer (makeDirectory p) fs = .error .alreadyExists ∧
      filesAfter (makeDirectory p) fs = fs := by
    simp [makeDirectory, answer_bind, filesAfter_bind, h.ending hn, hentry]
  have hkeep : answer (makeOrKeep p) fs = .ok () ∧ filesAfter (makeOrKeep p) fs = fs := by
    simp [makeOrKeep, answer_tryCatch, filesAfter_tryCatch, answer_bind, filesAfter_bind, hmake,
      hdirectory]
  obtain ⟨ha, hf⟩ := ensureDirectory_of_ok h hkeep.1
  exact ⟨ha, hf.trans hkeep.2⟩

/-! ### Nothing refused -/

theorem decided_of_nil (hr : fs.refusals = []) : fs.decided = fs := by
  cases fs
  simp_all [decided]

theorem answer_permit (hr : fs.refusals = []) : answer permit fs = .ok () := by
  simp [permit, answer_bind, hr]

/-- A directory whose name is free is made. -/
theorem ensureDirectory_of_free (h : fs.EndsIn p directory name) (hn : fs.NoLinks)
    (hr : fs.refusals = []) (hentry : fs.entry? (directory ++ [name]) = none) :
    answer (ensureDirectory p) fs = .ok () ∧
      filesAfter (ensureDirectory p) fs = fs.place (directory ++ [name]) .directory := by
  have hmake : answer (makeDirectory p) fs = .ok () ∧
      filesAfter (makeDirectory p) fs = fs.place (directory ++ [name]) .directory := by
    simp [makeDirectory, answer_bind, filesAfter_bind, h.ending hn, hentry, answer_permit hr,
      decided_of_nil hr]
  have hkeep : answer (makeOrKeep p) fs = .ok () ∧
      filesAfter (makeOrKeep p) fs = fs.place (directory ++ [name]) .directory := by
    simp [makeOrKeep, answer_tryCatch, filesAfter_tryCatch, hmake]
  obtain ⟨ha, hf⟩ := ensureDirectory_of_ok h hkeep.1
  exact ⟨ha, hf.trans hkeep.2⟩

/-! ### Files -/

/-- The name of the next temporary file for a file with this name. -/
def temporaryName (fs : FileSystem) (file : String) : String :=
  "." ++ file ++ "." ++ fs.processTag ++ "." ++ toString fs.temporaries ++ ".tmp"

theorem orRemoving_of_ok {α : Type} {x : Action α} {a : α} (h : answer x fs = .ok a) (q : Path) :
    answer (orRemoving q x) fs = .ok a ∧ filesAfter (orRemoving q x) fs = filesAfter x fs := by
  rw [orRemoving, answer_tryCatch, filesAfter_tryCatch, h]
  exact ⟨rfl, rfl⟩

theorem place_place (l : Location) (e e' : Entry) : (fs.place l e).place l e' = fs.place l e' := by
  rw [place, place, Keyed.put_put, place]

theorem remove_place (l : Location) (e : Entry) : (fs.place l e).remove l = fs.remove l := by
  rw [remove, place, Keyed.erase_put_self, remove]

theorem noLinks_of_entries (h : ∀ m ∈ fs.entries, ∀ target, m.2 ≠ .link target) : fs.NoLinks := by
  intro l target he
  unfold entry? at he
  split at he
  · cases he
  · exact h _ (Keyed.mem_of_get_eq_some he) target rfl

variable (fs) in
/-- A file is put where its path leads, if no directory is in the way. -/
theorem putFile_of_locate {p : Path} {place : Place} (hplace : fs.locate true p = .ok place)
    (hr : fs.refusals = []) (hentry : fs.entry? place.location ≠ some .directory)
    (content : Content) :
    answer (putFile p content) fs = .ok () ∧
      filesAfter (putFile p content) fs = fs.place place.location (.file content) := by
  have hopen : answer (openFile p) fs = .ok place.location ∧
      filesAfter (openFile p) fs = fs.place place.location (.file (.text "")) := by
    simp only [openFile, answer_bind, filesAfter_bind, answer_ask, filesAfter_ask, hplace,
      answer_get, filesAfter_get]
    simp only [if_neg hentry, answer_bind, filesAfter_bind, filesAfter_permit, answer_permit hr,
      decided_of_nil hr, answer_modify, filesAfter_modify]
    exact ⟨rfl, rfl⟩
  simp only [putFile, answer_bind, filesAfter_bind, hopen.1, hopen.2]
  generalize hput : fs.place place.location (.file (.text "")) = put
  have hrefusals : put.refusals = [] := by rw [← hput]; exact hr
  simp only [filesAfter_permit, answer_permit hrefusals, decided_of_nil hrefusals, answer_modify,
    filesAfter_modify]
  rw [← hput, place_place]
  exact ⟨trivial, rfl⟩

theorem putFile_of_ok (h : fs.EndsIn p directory name) (hn : fs.NoLinks)
    (hr : fs.refusals = []) (hentry : fs.entry? (directory ++ [name]) ≠ some .directory)
    (content : Content) :
    answer (putFile p content) fs = .ok () ∧
      filesAfter (putFile p content) fs = fs.place (directory ++ [name]) (.file content) := by
  cases he : fs.entry? (directory ++ [name]) with
  | none => exact putFile_of_locate fs (h.locate_of_free hn he true) hr hentry content
  | some e => exact putFile_of_locate fs (h.locate_of_entry hn he true) hr hentry content

variable (fs) in
/-- What stands at a name is moved to another name, where no directory is in the way. -/
theorem moveFile_of_ending {q p : Path} {d d' : Location} {source name : String} {e : Entry}
    (hs : fs.ending q = .ok ⟨d, some source, false⟩)
    (h : fs.ending p = .ok ⟨d', some name, false⟩) (hr : fs.refusals = [])
    (hfile : fs.entry? (d ++ [source]) = some e)
    (hentry : fs.entry? (d' ++ [name]) ≠ some .directory) :
    answer (moveFile q p) fs = .ok () ∧ filesAfter (moveFile q p) fs =
      (fs.remove (d ++ [source])).place (d' ++ [name]) e := by
  simp [moveFile, answer_bind, filesAfter_bind, hs, h, hfile, hentry, answer_permit hr,
    decided_of_nil hr]

variable (fs) in
/-- The temporary file beside a file takes the next number. -/
theorem temporaryBeside_of_name {file : String} (hfile : p.fileName? = some file) :
    answer (temporaryBeside p) fs = .ok (p.directory.join ⟨fs.temporaryName file⟩) ∧
      filesAfter (temporaryBeside p) fs = { fs with temporaries := fs.temporaries + 1 } := by
  simp only [temporaryBeside, hfile]
  exact ⟨rfl, rfl⟩

variable (fs) in
/-- Writing a text is putting it into a temporary file and moving that. -/
theorem writeFile_of_steps {p : Path} {file : String} (hfile : p.fileName? = some file)
    {q : Path} (hq : p.directory.join ⟨fs.temporaryName file⟩ = q) {text : String}
    {put : FileSystem}
    (hput : answer (putFile q (.text text)) { fs with temporaries := fs.temporaries + 1 } = .ok () ∧
      filesAfter (putFile q (.text text)) { fs with temporaries := fs.temporaries + 1 } = put)
    (hmove : answer (moveFile q p) put = .ok ()) :
    answer (writeFile p text) fs = .ok () ∧
      filesAfter (writeFile p text) fs = filesAfter (moveFile q p) put := by
  have htemporary := temporaryBeside_of_name fs hfile
  rw [hq] at htemporary
  obtain ⟨hput', hputFiles'⟩ := orRemoving_of_ok hput.1 q
  obtain ⟨hmove', hmoveFiles'⟩ := orRemoving_of_ok hmove q
  rw [writeFile, answer_bind, filesAfter_bind, htemporary.1, htemporary.2]
  dsimp only
  rw [answer_bind, filesAfter_bind, hput', hputFiles', hput.2]
  exact ⟨hmove', hmoveFiles'⟩

/-- A text is written where no directory is in the way of the file or of its temporary file; then
the file has the text, and nothing has the temporary name. -/
theorem writeFile_of_ok {file source : String} (hfile : p.fileName? = some file)
    (h : fs.EndsIn p directory name)
    (hs : fs.EndsIn (p.directory.join ⟨fs.temporaryName file⟩) directory source)
    (hn : fs.NoLinks) (hr : fs.refusals = [])
    (hentry : fs.entry? (directory ++ [name]) ≠ some .directory)
    (hsource : fs.entry? (directory ++ [source]) ≠ some .directory) (text : String) :
    answer (writeFile p text) fs = .ok () ∧ filesAfter (writeFile p text) fs =
      ({ fs with temporaries := fs.temporaries + 1 }.remove (directory ++ [source])).place
        (directory ++ [name]) (.file (.text text)) := by
  generalize hq : p.directory.join ⟨fs.temporaryName file⟩ = q at hs
  have hsteps := @writeFile_of_steps fs p file hfile q hq text
  generalize hcounted : { fs with temporaries := fs.temporaries + 1 } = counted at hsteps
  have hentries : ∀ l, counted.entry? l = fs.entry? l := fun l => by rw [← hcounted]; rfl
  have hkeeps : KeepsDirectories fs counted :=
    ⟨by rw [← hcounted], fun l hl => (hentries l).trans hl⟩
  have hncounted : counted.NoLinks := fun l target => by rw [hentries]; exact hn l target
  have hrcounted : counted.refusals = [] := by rw [← hcounted]; exact hr
  rw [← hentries] at hentry hsource
  have hput := putFile_of_ok (hs.kept hkeeps) hncounted hrcounted hsource (.text text)
  have hroot : directory ++ [source] ≠ [] := by simp
  have hreaches : Reaches (fun _ => True) counted
      (counted.place (directory ++ [source]) (.file (.text text))) :=
    .single (.puts _ _ _ trivial hsource)
  have hplaced := entry_place_self counted hroot (.file (.text text))
  have hdirectory : entry? (counted.place (directory ++ [source]) (.file (.text text)))
      (directory ++ [name]) ≠ some .directory := by
    by_cases he : directory ++ [name] = directory ++ [source]
    · simp [he, hplaced]
    · rwa [entry_place_of_ne _ he]
  have hnput := hreaches.noLinks hncounted
  have hplacedKeeps := hreaches.keepsDirectories
  obtain ⟨hmove, hmoveFiles⟩ := moveFile_of_ending _
    (((hs.kept hkeeps).kept hplacedKeeps).ending hnput)
    (((h.kept hkeeps).kept hplacedKeeps).ending hnput) hrcounted hplaced hdirectory
  obtain ⟨hwrite, hwriteFiles⟩ := hsteps hput hmove
  exact ⟨hwrite, by rw [hwriteFiles, hmoveFiles, remove_place]⟩

/-- Where nothing has the temporary name, the file is all that has changed. -/
theorem writeFile_of_free {file source : String} (hfile : p.fileName? = some file)
    (h : fs.EndsIn p directory name)
    (hs : fs.EndsIn (p.directory.join ⟨fs.temporaryName file⟩) directory source)
    (hn : fs.NoLinks) (hr : fs.refusals = [])
    (hentry : fs.entry? (directory ++ [name]) ≠ some .directory)
    (hfree : fs.entry? (directory ++ [source]) = none) (text : String) :
    answer (writeFile p text) fs = .ok () ∧ filesAfter (writeFile p text) fs =
      { fs with temporaries := fs.temporaries + 1 }.place (directory ++ [name])
        (.file (.text text)) := by
  obtain ⟨ha, hf⟩ := writeFile_of_ok hfile h hs hn hr hentry (by simp [hfree]) text
  rw [FileSystem.entry?, if_neg (by simp)] at hfree
  rw [remove, Keyed.erase_of_get_eq_none hfree] at hf
  exact ⟨ha, hf⟩

end ends

end FileRoutes.FileSystem
