import FileRoutes.Proofs.Atomic
import FileRoutes.Proofs.Ends

/-!
# Writing files again

Where the system refuses nothing, no link is in the way and nothing has the temporary name, what
writing a text comes to depends on three things only: what the system says to the two names, and
whether a directory stands at the path. The file is all that has changed. So writing a text where
it has been written comes to the same and changes no entry.

## The model

* `admits` — what the system says to a name at the end of a path.
* `NamedIn` — a path that ends in a name, in a directory that is passed.
* `writingAnswer` — what writing comes to.

## What is proved

* `writeFile_of_clear` — what writing comes to, with the files afterwards.
-/

namespace FileRoutes.FileSystem

open FileRoutes.Path (GoesDown)
open FileSystem.Action

/-- What the system says to a name at the end of a path before it looks for it: the path has to
be well-formed, and the name must not be too long. -/
def admits (p : Path) (name : String) : Except Error Unit := do
  checkPath p
  if greatestName < name.utf8ByteSize then throw .nameTooLong

/-- The path ends in a name, and what stands before the name leads to a directory. -/
structure NamedIn (fs : FileSystem) (p : Path) (directory : Location) (name : String) : Prop where
  /-- What stands before the name can be passed. -/
  passes : ∃ init m, p.segments = init ++ [name] ∧
    fs.Passes greatestLinks (startOf p.text fs.workingDirectory) init m directory
  /-- The name is one that leads down. -/
  down : GoesDown name

/-- What writing comes to: the temporary name has to be admitted, then the name of the file, and
then no directory may be in the way. -/
def writingAnswer (source target : Except Error Unit) (there : Option Entry) :
    Except Error Unit := do
  source
  target
  if there = some .directory then throw .isDirectory

variable {fs : FileSystem} {p q : Path} {directory : Location} {name source : String}

theorem admits_eq_ok_iff : admits p name = .ok () ↔
    checkPath p = .ok () ∧ ¬ greatestName < name.utf8ByteSize := by
  unfold admits
  cases checkPath p with
  | error e => simp [bind, Except.bind]
  | ok u =>
    by_cases h : greatestName < name.utf8ByteSize
    · simp [h, bind, Except.bind, throw, throwThe, MonadExceptOf.throw]
    · simp [h, bind, Except.bind, pure, Except.pure]

theorem admits_error_cases {e : Error} (h : admits p name = .error e) : checkPath p = .error e ∨
    (checkPath p = .ok () ∧ greatestName < name.utf8ByteSize ∧ e = .nameTooLong) := by
  unfold admits at h
  cases hc : checkPath p with
  | error x =>
    rw [hc] at h
    exact .inl (congrArg _ (Except.error.inj h))
  | ok u =>
    rw [hc] at h
    by_cases hlong : greatestName < name.utf8ByteSize
    · rw [if_pos hlong] at h
      exact .inr ⟨rfl, hlong, (Except.error.inj h).symm⟩
    · rw [if_neg hlong] at h
      cases h

/-- What stands at the path matters only if it is a directory. -/
theorem writingAnswer_congr {source target : Except Error Unit} {there there' : Option Entry}
    (hkept : there = some .directory → there' = some .directory)
    (hnew : writingAnswer source target there = .ok () → there' ≠ some .directory) :
    writingAnswer source target there = writingAnswer source target there' := by
  cases source with
  | error e => rfl
  | ok u =>
    cases target with
    | error e => rfl
    | ok u =>
      by_cases hd : there = some .directory
      · rw [hd, hkept hd]
      · have hok : writingAnswer (.ok ()) (.ok ()) there = .ok () := by
          rw [writingAnswer, if_neg hd]
          rfl
        rw [hok, writingAnswer, if_neg (hnew hok)]
        rfl

namespace NamedIn

theorem core_eq (h : fs.NamedIn p directory name) : ∃ init m, core p = init ++ [name] ∧
    fs.Passes greatestLinks (startOf p.text fs.workingDirectory) init m directory := by
  obtain ⟨init, m, hsegments, hpasses⟩ := h.passes
  have hne : name ≠ "" := by
    rintro rfl
    exact absurd h.down.1 (by decide)
  exact ⟨init, m, core_of_concat hsegments hne, hpasses⟩

theorem kept {fs' : FileSystem} (h : fs.NamedIn p directory name) (hk : KeepsWays fs fs') :
    fs'.NamedIn p directory name := by
  obtain ⟨init, m, hsegments, hpasses⟩ := h.passes
  exact ⟨⟨init, m, hsegments, hk.here ▸ hpasses.kept hk⟩, h.down⟩

variable (h : fs.NamedIn p directory name)
include h

/-- A name that is admitted is one that can be looked for. -/
theorem endsIn (hn : fs.NoLinks) (ha : admits p name = .ok ()) : fs.EndsIn p directory name := by
  obtain ⟨hc, hshort⟩ := admits_eq_ok_iff.1 ha
  obtain ⟨init, m, hsegments, hpasses⟩ := h.passes
  exact ⟨hc, ⟨init, hsegments, (walk_eq_ok_iff hn true greatestLinks).1 hpasses.walk_nothing⟩,
    h.down, hshort⟩

/-- A name that is not admitted is not looked for. -/
theorem locate_error {e : Error} (ha : admits p name = .error e) (last : Bool) :
    fs.locate last p = .error e := by
  obtain ⟨init, m, hsegments, hpasses⟩ := h.passes
  unfold locate
  obtain hc | ⟨hc, hlong, rfl⟩ := admits_error_cases ha
  · rw [hc]
    rfl
  · rw [hc, hsegments, hpasses.walk_append (by simp), walk_of_long h.down hlong]
    rfl

theorem ending_error {e : Error} (ha : admits p name = .error e) : fs.ending p = .error e := by
  obtain ⟨init, m, hcore, hpasses⟩ := h.core_eq
  obtain hc | ⟨hc, hlong, rfl⟩ := admits_error_cases ha
  · exact ending_of_checkPath hc
  · have hlast : (core p).getLast? = some name := by rw [hcore, List.getLast?_concat]
    have hfront : init = (core p).dropLast := by rw [hcore, List.dropLast_concat]
    rw [hfront] at hpasses
    have hdots : ¬ (name = "." ∨ name = "..") := by
      rintro (rfl | rfl)
      · exact absurd h.down.1 (by decide)
      · exact h.down.2 rfl
    rw [ending_of_passes hc hlast hpasses, if_neg hdots, if_pos hlong]

end NamedIn

/-! ### Writing -/

/-- Where the temporary file cannot be put, nothing changes. -/
theorem writeFile_of_not_put {file : String} (hfile : p.fileName? = some file)
    (hq : fs.temporaryPath p file = q) {e : Error} (hlocate : ∀ last,
      locate { fs with temporaries := fs.temporaries + 1 } last q = .error e) (text : String) :
    answer (writeFile p text) fs = .error e ∧ filesAfter (writeFile p text) fs =
      { fs with temporaries := fs.temporaries + 1 } := by
  have htemporary := temporaryBeside_of_name fs hfile
  rw [← temporaryPath, hq] at htemporary
  rw [writeFile, answer_bind, filesAfter_bind, htemporary.1, htemporary.2]
  generalize { fs with temporaries := fs.temporaries + 1 } = counted at hlocate
  have hput : answer (putFile q (.text text)) counted = .error e ∧
      filesAfter (putFile q (.text text)) counted = counted := by
    simp [putFile, openFile, answer_bind, filesAfter_bind, hlocate]
  have hremove : filesAfter (removeFile q) counted = counted := by
    simp [removeFile, filesAfter_bind, hlocate]
  obtain ⟨ha, hf⟩ := orRemoving_of_error hput.1 q
  rw [hput.2, hremove] at hf
  dsimp only
  rw [answer_bind, filesAfter_bind, ha, hf]
  exact ⟨rfl, rfl⟩

/-- What the files are like once a file has been put where nothing has been. -/
theorem EndsIn.put (hs : fs.EndsIn q directory source) (hn : fs.NoLinks)
    (hfree : fs.entry? (directory ++ [source]) = none) (content : Content) :
    let put := fs.place (directory ++ [source]) (.file content)
    KeepsDirectories fs put ∧ put.NoLinks ∧ put.EndsIn q directory source ∧
      put.entry? (directory ++ [source]) = some (.file content) := by
  intro put
  have hreaches : Reaches (fun _ => True) fs put :=
    .single (.puts _ _ _ trivial (by simp [hfree]))
  exact ⟨hreaches.keepsDirectories, hreaches.noLinks hn, hs.kept hreaches.keepsDirectories,
    entry_place_self fs (by simp) (.file content)⟩

/-- Where the temporary file is put and cannot be moved, it is taken away again. -/
theorem writeFile_of_not_moved {file : String} (text : String) (hfile : p.fileName? = some file)
    (hq : fs.temporaryPath p file = q) (hs : fs.EndsIn q directory source) (hn : fs.NoLinks)
    (hr : fs.refusals = []) (hfree : fs.entry? (directory ++ [source]) = none) {e : Error}
    (hmove : ∀ put, KeepsWays fs put → put.NoLinks → put.ending q =
      .ok ⟨directory, some source, false⟩ → put.entry? (directory ++ [source]) =
        some (.file (.text text)) →
          answer (moveFile q p) put = .error e ∧ filesAfter (moveFile q p) put = put) :
    answer (writeFile p text) fs = .error e ∧ filesAfter (writeFile p text) fs =
      { fs with temporaries := fs.temporaries + 1 } := by
  have htemporary := temporaryBeside_of_name fs hfile
  rw [← temporaryPath, hq] at htemporary
  rw [writeFile, answer_bind, filesAfter_bind, htemporary.1, htemporary.2]
  generalize hcounted : { fs with temporaries := fs.temporaries + 1 } = counted at hmove
  have hentries : ∀ l, counted.entry? l = fs.entry? l := fun l => by rw [← hcounted]; rfl
  have hkeeps : KeepsDirectories fs counted :=
    ⟨by rw [← hcounted], fun l hl => (hentries l).trans hl⟩
  have hncounted : counted.NoLinks := fun l target => by rw [hentries]; exact hn l target
  have hrcounted : counted.refusals = [] := by rw [← hcounted]; exact hr
  rw [← hentries] at hfree
  have hs := hs.kept hkeeps
  obtain ⟨hput, hputFiles⟩ := putFile_of_ok hs hncounted hrcounted (by simp [hfree]) (.text text)
  obtain ⟨hkept, hnput, hsput, hplaced⟩ := hs.put hncounted hfree (.text text)
  have hways : KeepsWays fs (counted.place (directory ++ [source]) (.file (.text text))) :=
    ⟨⟨hkept.here.trans hkeeps.here, fun l hl => hkept.directories l (hkeeps.directories l hl)⟩,
      fun l target hl => absurd hl (hn l target)⟩
  obtain ⟨hmove, hmoveFiles⟩ := hmove _ hways hnput (hsput.ending hnput) hplaced
  have hremove :=
    filesAfter_removeFile (hsput.locate_of_entry hnput hplaced false) hplaced (by simp)
  obtain ⟨ha, hf⟩ := orRemoving_of_ok hput q
  obtain ⟨ha', hf'⟩ := orRemoving_of_error hmove q
  rw [hputFiles] at hf
  rw [FileSystem.entry?, if_neg (by simp)] at hfree
  rw [hmoveFiles, hremove, Place.location, remove_place, remove,
    Keyed.erase_of_get_eq_none hfree] at hf'
  dsimp only
  rw [answer_bind, filesAfter_bind, ha, hf]
  exact ⟨ha', hf'⟩

section clear

variable {file : String} (hfile : p.fileName? = some file) (h : fs.NamedIn p directory name)
  (hs : fs.NamedIn (fs.temporaryPath p file) directory source) (hn : fs.NoLinks)
  (hr : fs.refusals = []) (hfree : fs.entry? (directory ++ [source]) = none) (text : String)
include hfile h hs hn hr hfree

/-- What writing comes to where nothing has the temporary name: the file is all that changes. -/
theorem writeFile_of_clear :
    let verdict := writingAnswer (admits (fs.temporaryPath p file) source) (admits p name)
      ( fs.entry? (directory ++ [name]))
    let counted := { fs with temporaries := fs.temporaries + 1 }
    answer (writeFile p text) fs = verdict ∧ filesAfter (writeFile p text) fs =
      if verdict = .ok () then counted.place (directory ++ [name]) (.file (.text text))
      else counted := by
  intro verdict counted
  have hmoved {e : Error} (hq : fs.EndsIn (fs.temporaryPath p file) directory source) :=
    writeFile_of_not_moved text hfile rfl (e := e) hq hn hr hfree
  cases hsource : admits (fs.temporaryPath p file) source with
  | error e =>
    have hverdict : verdict = .error e := by
      simp only [verdict, hsource]
      rfl
    have hkept : KeepsWays fs counted := ⟨⟨rfl, fun _ => id⟩, fun _ _ => id⟩
    rw [hverdict, if_neg (by simp)]
    exact writeFile_of_not_put hfile rfl
      (fun last => (hs.kept hkept).locate_error hsource last) text
  | ok u =>
    have hends := hs.endsIn hn hsource
    cases htarget : admits p name with
    | error e =>
      have hverdict : verdict = .error e := by
        simp only [verdict, hsource, htarget]
        rfl
      rw [hverdict, if_neg (by simp)]
      refine hmoved hends fun put hways _ hending _ => ?_
      have hno := (h.kept hways).ending_error htarget
      simp [moveFile, answer_bind, filesAfter_bind, hending, hno]
    | ok u =>
      by_cases hd : fs.entry? (directory ++ [name]) = some .directory
      · have hverdict : verdict = .error .isDirectory := by
          simp only [verdict, hsource, htarget, hd]
          rfl
        rw [hverdict, if_neg (by simp)]
        refine hmoved hends fun put hways hnput hending hplaced => ?_
        have hthere := hways.directories _ hd
        have hto := ((h.kept hways).endsIn hnput htarget).ending hnput
        simp [moveFile, answer_bind, filesAfter_bind, hending, hto, hplaced, hthere]
      · have hverdict : verdict = .ok () := by
          simp only [verdict, hsource, htarget, writingAnswer, if_neg hd]
          rfl
        rw [hverdict, if_pos rfl]
        exact writeFile_of_free hfile (h.endsIn hn htarget) hends hn hr hd hfree text

end clear

end FileRoutes.FileSystem
