import FileRoutes.Proofs.Atomic
import FileRoutes.Proofs.Ends

/-!
# All or nothing

Where the temporary name beside a path is free, writing a text to the path changes one thing or
nothing at all: the name that the path ends in bears a file with the text afterwards, or the files
are as before. A path that has gone through the very link that the file takes the place of does not
lead to the file.

## The model

* `FreeBeside` — the temporary name beside a path is not in use.
* `Unrefused` — the system does not refuse the next changes.
* `Unhindered` — what it takes for a text to be written.
* `LeadsWithout` — the directory of the last name of a path is found without what bears the name.

## What is proved

* `answer_writeFile_ok_iff` — when a text is written.
* `writeFile_eq_or_placed` — nothing changes, or there is a file at the end of the path.
* `entryAt_placed_iff` — where the path leads to this file.

The main statement is `writeFile_all_or_nothing`, which puts these together.
-/

namespace FileRoutes.FileSystem

open FileRoutes.Path (GoesDown)
open FileSystem.Action

variable {fs fs' : FileSystem} {l : Location} {p q : Path}

/-! ### What is asked for -/

/-- The temporary name beside a path is not in use. -/
def FreeBeside (fs : FileSystem) (p : Path) : Prop :=
  ∀ file ∈ p.fileName?, ∀ l, fs.locate false (fs.temporaryPath p file) ≠ .ok (.found l)

/-- The system refuses none of the next changes, as many as are asked for. -/
def Unrefused (fs : FileSystem) (changes : Nat) : Prop := ∀ r ∈ fs.refusals.take changes, r = none

/-- A path ends in a name that bears no directory, and there is no slash behind the name. -/
def EndsInFile (fs : FileSystem) (p : Path) (e : Ending) (name : String) : Prop :=
  fs.ending p = .ok e ∧ e.name = some name ∧ e.slash = false ∧
    fs.entry? (e.directory ++ [name]) ≠ some .directory

/-- What it takes for a text to be written to a path: the temporary file can be put beside it, the
path ends in a name that bears no directory, and the system does not refuse to make the file, to
fill it and to move it. -/
structure Unhindered (fs : FileSystem) (p : Path) : Prop where
  /-- There is a directory for the temporary file. -/
  opens : ∃ file l, p.fileName? = some file ∧
    fs.locate true (fs.temporaryPath p file) = .ok (.free l)
  /-- The path ends in a name that bears no directory. -/
  ends : ∃ e name, fs.EndsInFile p e name
  /-- Nothing is refused. -/
  unrefused : fs.Unrefused 3

/-- The directory of the last name of a path is found without what stands at a location. -/
def LeadsWithout (fs : FileSystem) (p : Path) (l : Location) : Prop :=
  (fs.remove l).ending p = fs.ending p

/-! ### Nothing or all -/

theorem remove_of_none (h : fs.entry? l = none) : fs.remove l = fs := by
  have hne : l ≠ [] := by
    rintro rfl
    cases h
  rw [FileSystem.entry?, if_neg hne] at h
  rw [remove, Keyed.erase_of_get_eq_none h]

/-- Where nothing has a name, a file is put under this name. -/
theorem exists_free (hfree : ∀ l, fs.locate false q ≠ .ok (.found l)) {opened : Place}
    (hopen : fs.locate true q = .ok opened) :
    ∃ m, opened = .free m ∧ fs.locate false q = .ok (.free m) ∧ fs.entry? m = none := by
  obtain ⟨place, hplace, hcases⟩ := locate_false_of_true hopen
  cases place with
  | found m => exact absurd hplace (hfree m)
  | free m =>
    have hnone := locate_free hplace
    obtain rfl | ⟨target, hl⟩ := hcases
    · exact ⟨m, rfl, hplace, hnone⟩
    · rw [Place.location, hnone] at hl
      cases hl

/-- Where the temporary name is free, nothing changes, or there is a file at the end of the path and
nothing else has changed. -/
theorem Writing.eq_or_placed (hfree : ∀ l, fs.locate false q ≠ .ok (.found l)) {text : String}
    {result : Except Error Unit} (hw : Writing fs q p text result fs') :
    (∃ error, result = .error error ∧ SameFiles fs fs') ∨
    (result = .ok () ∧ ∃ e name, fs.EndsInFile p e name ∧
      SameFiles (fs.place (e.directory ++ [name]) (.file (.text text))) fs') := by
  cases hw with
  | untouched error same => exact .inl ⟨error, rfl, same⟩
  | cleared error named => exact absurd named (hfree _)
  | abandoned error opens names noDirectory same =>
    obtain ⟨m, rfl, hnamed, hnone⟩ := exists_free hfree opens
    obtain rfl := Except.ok.inj (hnamed.symm.trans names)
    rw [remove_place, Place.location, remove_of_none hnone] at same
    exact .inl ⟨error, rfl, same⟩
  | moved opens names noDirectory ends hname slash target source same =>
    obtain ⟨m, rfl, hnamed, hnone⟩ := exists_free hfree opens
    obtain rfl := Except.ok.inj (hnamed.symm.trans names)
    rw [entry_place_self fs (ne_root_of_entry noDirectory)] at source
    obtain rfl := Option.some.inj source
    rw [remove_place, Place.location, remove_of_none hnone] at same
    exact .inr ⟨rfl, _, _, ⟨ends, hname, slash, target⟩, same⟩

/-- Where a text has been written, the temporary file has been put where nothing was. -/
theorem Writing.opens (hfree : ∀ l, fs.locate false q ≠ .ok (.found l)) {text : String}
    (hw : Writing fs q p text (.ok ()) fs') :
    ∃ m, fs.locate true q = .ok (.free m) ∧ fs.locate false q = .ok (.free m) := by
  cases hw with
  | moved opens =>
    obtain ⟨m, rfl, hnamed, -⟩ := exists_free hfree opens
    exact ⟨m, opens, hnamed⟩

/-! ### Where the path leads afterwards -/

theorem SameFiles.entryAt (h : SameFiles fs fs') (p : Path) : fs'.entryAt p = fs.entryAt p := by
  simp only [FileSystem.entryAt, resolve, h.locate, h.entry]

/-- A path that ends in the name of a file leads to this file. -/
theorem entryAt_of_ending (h : fs.Grounded) {e : Ending} {name : String} {content : Content}
    (he : fs.ending p = .ok e) (hn : e.name = some name) (hs : e.slash = false)
    (hfile : fs.entry? (e.directory ++ [name]) = some (.file content)) :
    fs.entryAt p = .ok (.file content) := by
  obtain ⟨hname, -, init, blanks, m, hsegments, -, hslash, hpasses⟩ := ending_parts h he hn
  rw [hslash hs] at hsegments
  have hlocate : ∃ place, fs.locate true p = .ok place ∧
      place.location = e.directory ++ [name] :=
    locate_name (ending_eq_ok he hn).1 hsegments hpasses hname.down hname.short
      fun target hlink => by simp [hfile] at hlink
  obtain ⟨place, hplace, hl⟩ := hlocate
  cases place with
  | free m =>
    have hnone := locate_free hplace
    obtain rfl : m = _ := hl
    rw [hnone] at hfile
    cases hfile
  | found m =>
    obtain rfl : m = _ := hl
    exact entryAt_of_resolve (resolve_of_locate hplace) hfile

/-- Where no directory is, a file can be put: the ways are as without what has been there. -/
theorem sameWays_replaced (hd : fs.entry? l ≠ some .directory) (content : Content) :
    SameWays (fs.remove l) (fs.place l (.file content)) := by
  have hroot := ne_root_of_entry hd
  have hself := entry_place_self fs hroot (.file content)
  have hremoved := entry_remove_self fs hroot
  refine ⟨rfl, fun m => ?_, fun m target => ?_⟩
  · by_cases hm : m = l
    · subst hm
      simp [hself, hremoved]
    · rw [entry_place_of_ne _ hm, entry_remove_of_ne _ hm]
  · by_cases hm : m = l
    · subst hm
      simp [hself, hremoved]
    · rw [entry_place_of_ne _ hm, entry_remove_of_ne _ hm]

/-- What is found without a directory or a link is found with it. -/
theorem keepsWays_of_remove (hl : l ≠ []) : KeepsWays (fs.remove l) fs := by
  have hkept : ∀ m entry, entry? (fs.remove l) m = some entry → fs.entry? m = some entry := by
    intro m entry hm
    by_cases hml : m = l
    · rw [hml, entry_remove_self fs hl] at hm
      cases hm
    · rwa [entry_remove_of_ne fs hml] at hm
  exact ⟨⟨rfl, fun m => hkept m _⟩, fun m target => hkept m _⟩

/-- A path that leads to something can be followed. -/
theorem exists_locate_of_entryAt {entry : Entry} (hentry : fs.entryAt p = .ok entry) :
    ∃ place, fs.locate false p = .ok place := by
  cases hresolve : fs.resolve p with
  | error error => simp [entryAt, hresolve, bind, Except.bind] at hentry
  | ok m =>
    obtain ⟨place, hplace, -⟩ := locate_false_of_true (locate_of_resolve hresolve)
    exact ⟨place, hplace⟩

/-- What can be followed to a name at its end ends there. -/
theorem ending_of_locate {init : List String} {name : String}
    (hsegments : p.segments = init ++ [name]) (hdown : GoesDown name) {place : Place}
    (hplace : fs.locate false p = .ok place) :
    ∃ m d, fs.Passes greatestLinks (startOf p.text fs.workingDirectory) init m d ∧
      fs.ending p = .ok ⟨d, some name, false⟩ ∧ place.location = d ++ [name] := by
  obtain ⟨hcheck, hwalk⟩ := locate_ok_cases hplace
  rw [hsegments] at hwalk
  obtain ⟨m, d, hpasses, hw⟩ := exists_passes (by simp) hwalk
  have hne : name ≠ "" := by
    rintro rfl
    exact absurd hdown (by decide)
  have hdots : ¬ (name = "." ∨ name = "..") := by
    rintro (rfl | rfl) <;> exact absurd hdown (by decide)
  have hcore := core_of_concat hsegments hne
  have hlast : (core p).getLast? = some name := by rw [hcore, List.getLast?_concat]
  have hends := ending_of_passes hcheck hlast (by rw [hcore, List.dropLast_concat]; exact hpasses)
  obtain ⟨hshort, hlocation⟩ :
      ¬ greatestName < name.utf8ByteSize ∧ place.location = d ++ [name] := by
    obtain ⟨hs, -⟩ | ⟨hup, -⟩ |
      ⟨-, short, ⟨-, hw⟩ | ⟨-, -, -, -, hfollowed, -⟩ | ⟨-, -, hl, -⟩⟩ := walk_cons_cases hw
    · exact absurd hs (by simp [hdown.1])
    · exact absurd hup hdown.2
    · rw [walk_nil] at hw
      exact ⟨short, (congrArg Place.location (Except.ok.inj hw)).symm⟩
    · exact absurd ⟨rfl, rfl⟩ hfollowed
    · exact ⟨short, hl⟩
  rw [if_neg hdots, if_neg hshort, hcore, hsegments] at hends
  exact ⟨m, d, hpasses, by simpa using hends, hlocation⟩

section placed

variable (h : fs.Grounded) {e : Ending} {name : String} (he : fs.EndsInFile p e name)
  (content : Content)
include he

/-- A path that does not end in a link is not led through the location it ends in. -/
theorem leadsWithout_of_no_link
    (hl : ∀ target, fs.entry? (e.directory ++ [name]) ≠ some (.link target)) :
    fs.LeadsWithout p (e.directory ++ [name]) := by
  obtain ⟨hends, hname, -, hd⟩ := he
  have hplaced := (SameWays.of_place hd hl (.text "")).ending hends hname
  exact ((sameWays_replaced hd (.text "")).symm.ending hplaced hname).trans hends.symm

include h in
/-- The path leads to the file that has been put at its end exactly if it needs nothing that has
stood in its place. -/
theorem entryAt_placed_iff :
    entryAt (fs.place (e.directory ++ [name]) (.file content)) p = .ok (.file content) ↔
      fs.LeadsWithout p (e.directory ++ [name]) := by
  obtain ⟨hends, hname, hslash, hd⟩ := he
  obtain ⟨hisName, hdirectory, init, blanks, m, hsegments, -, hblanks, hpasses⟩ :=
    ending_parts h hends hname
  rw [hblanks hslash] at hsegments
  have hways := sameWays_replaced hd content
  constructor
  · intro hentry
    obtain ⟨place, hplace⟩ := exists_locate_of_entryAt hentry
    obtain ⟨k, d, hpasses', hafter, -⟩ := ending_of_locate hsegments hisName.down hplace
    -- What the path passes now it has passed before, and it passes one way only.
    have hbefore := (hpasses'.kept hways.symm.keepsWays).kept (keepsWays_of_remove (by simp))
    obtain ⟨-, rfl⟩ := hpasses.unique hbefore
    have hending : e = ⟨e.directory, some name, false⟩ := by
      rw [← hname, ← hslash]
    rw [LeadsWithout, hways.symm.ending hafter rfl, hends, ← hending]
  · intro hway
    have hgrounded : (fs.place (e.directory ++ [name]) (.file content)).Grounded :=
      h.place hdirectory fun he => absurd he hd
    exact entryAt_of_ending hgrounded (hways.ending (hway.trans hends) hname) hname hslash
      (entry_place_self fs (by simp) (.file content))

end placed

/-! ### When a text is written -/

theorem answer_permit_iff : answer permit fs = .ok () ↔ fs.Unrefused 1 := by
  rcases hr : fs.refusals with _ | ⟨_ | e, later⟩ <;> simp [permit, answer_bind, hr, Unrefused]

theorem unrefused_succ (k : Nat) :
    fs.Unrefused (k + 1) ↔ fs.Unrefused 1 ∧ fs.decided.Unrefused k := by
  rcases hr : fs.refusals with _ | ⟨r, later⟩ <;> simp [Unrefused, decided, hr]

section putting

variable {place : Place} (hplace : fs.locate true q = .ok place)
  (hd : fs.entry? place.location ≠ some .directory)
include hplace hd

/-- A file is put where nothing stands in the way and nothing is refused. -/
theorem putFile_of_unrefused (hr : fs.Unrefused 2) (content : Content) :
    answer (putFile q content) fs = .ok () ∧ filesAfter (putFile q content) fs =
      fs.decided.decided.place place.location (.file content) := by
  obtain ⟨hfirst, hsecond⟩ := (unrefused_succ 1).1 hr
  have hsecond' : answer permit (fs.decided.place place.location (.file (.text ""))) = .ok () :=
    answer_permit_iff.2 hsecond
  have hfiles : (fs.decided.place place.location (.file (.text ""))).decided.place place.location
      (.file content) = fs.decided.decided.place place.location (.file content) :=
    @place_place fs.decided.decided _ _ _
  simp [putFile, openFile, answer_bind, filesAfter_bind, hplace, if_neg hd,
    answer_permit_iff.2 hfirst, hsecond', hfiles]

theorem unrefused_of_putFile {content : Content} (hok : answer (putFile q content) fs = .ok ()) :
    fs.Unrefused 2 := by
  refine (unrefused_succ 1).2 ?_
  simp only [putFile, openFile, answer_bind, filesAfter_bind, answer_ask, filesAfter_ask, hplace,
    answer_get, filesAfter_get, if_neg hd, filesAfter_permit] at hok
  cases hfirst : answer permit fs with
  | error e => simp [hfirst] at hok
  | ok u =>
    refine ⟨answer_permit_iff.1 hfirst, ?_⟩
    simp only [hfirst, answer_modify, filesAfter_modify, answer_pure, filesAfter_pure] at hok
    cases hsecond : answer permit (fs.decided.place place.location (.file (.text ""))) with
    | error e => simp [hsecond] at hok
    | ok u =>
      have hlater := answer_permit_iff.1 hsecond
      exact hlater

end putting

theorem answer_moveFile {d : Location} {source name : String} {e : Ending} {entry : Entry}
    (hs : fs.ending q = .ok ⟨d, some source, false⟩) (he : fs.EndsInFile p e name)
    (hsource : fs.entry? (d ++ [source]) = some entry) :
    answer (moveFile q p) fs = answer permit fs := by
  obtain ⟨hends, hname, hslash, hd⟩ := he
  simp only [moveFile, answer_bind, answer_ask, filesAfter_ask, hs, hends, hname, answer_get,
    filesAfter_get, hsource, hslash, Bool.false_eq_true, or_self, if_false, if_neg hd,
    answer_modify]
  cases answer permit fs <;> rfl

theorem answer_orRemoving_iff {α : Type} {x : Action α} {a : α} :
    answer (orRemoving q x) fs = .ok a ↔ answer x fs = .ok a := by
  cases hx : answer x fs with
  | error error => simp [(orRemoving_of_error hx q).1]
  | ok b => simp [(orRemoving_of_ok hx q).1]

/-- Where states have the same directories and links, a path ends in the same file. -/
theorem EndsInFile.of_ways (h : SameWays fs fs') {e : Ending} {name : String}
    (he : fs.EndsInFile p e name) : fs'.EndsInFile p e name := by
  obtain ⟨hends, hname, hslash, hd⟩ := he
  exact ⟨h.ending hends hname, hname, hslash, fun hdir => hd ((h.directory_iff _).1 hdir)⟩

/-- Once it is clear where the files go, nothing is in the way but what the system refuses. -/
theorem answer_putting_moving {m : Location} (hopen : fs.locate true q = .ok (.free m))
    (hfree : fs.locate false q = .ok (.free m)) {init : List String} {source : String}
    (hsegments : q.segments = init ++ [source]) (hdown : GoesDown source) {e : Ending}
    {name : String} (he : fs.EndsInFile p e name) (content : Content) :
    answer (orRemoving q (putFile q content) >>= fun _ => orRemoving q (moveFile q p)) fs = .ok () ↔
      fs.Unrefused 3 := by
  have hnone : fs.entry? m = none := locate_free hopen
  have hd : fs.entry? m ≠ some .directory := by simp [hnone]
  have hrefusals : fs.Unrefused 3 ↔ fs.Unrefused 2 ∧ fs.decided.decided.Unrefused 1 := by
    rw [unrefused_succ 2, unrefused_succ 1, unrefused_succ 1, and_assoc]
  rw [answer_bind, hrefusals]
  by_cases hr : fs.Unrefused 2
  · obtain ⟨hput, hfiles⟩ := putFile_of_unrefused hopen hd hr content
    obtain ⟨hput', hfiles'⟩ := orRemoving_of_ok hput q
    rw [hput', hfiles', hfiles]
    dsimp only [Place.location]
    -- The directories and links are those at the start, and the temporary name bears the file.
    have hplaced : SameWays fs (fs.place m (.file content)) :=
      .of_place hd (by simp [hnone]) content
    have hways : SameWays fs (fs.decided.decided.place m (.file content)) :=
      ⟨hplaced.here, hplaced.directory_iff, hplaced.link_iff⟩
    obtain ⟨named, hnamed, hlocation⟩ := hways.locate hfree
    obtain ⟨-, d, -, hends, hsource⟩ := ending_of_locate hsegments hdown hnamed
    have hentry := entry_place_self fs.decided.decided (ne_root_of_entry hd) (.file content)
    rw [show m = d ++ [source] from hlocation.symm.trans hsource] at hentry hends hways ⊢
    rw [answer_orRemoving_iff, answer_moveFile hends (he.of_ways hways) hentry, answer_permit_iff]
    exact ⟨fun hlast => ⟨hr, hlast⟩, fun hlast => hlast.2⟩
  · cases hput : answer (orRemoving q (putFile q content)) fs with
    | error error => simp [hr]
    | ok u => exact absurd (unrefused_of_putFile hopen hd (answer_orRemoving_iff.1 hput)) hr

/-- Once it is clear where the files go, a text is written exactly if nothing is refused. -/
theorem answer_writeFile_iff {file : String} {m : Location}
    (hfile : p.fileName? = some file)
    (hopen : fs.locate true (fs.temporaryPath p file) = .ok (.free m))
    (hfree : fs.locate false (fs.temporaryPath p file) = .ok (.free m))
    {e : Ending} {name : String} (he : fs.EndsInFile p e name) (text : String) :
    answer (writeFile p text) fs = .ok () ↔ fs.Unrefused 3 := by
  have htemporary := temporaryBeside_of_name fs hfile
  rw [← temporaryPath] at htemporary
  obtain ⟨init, source, hsegments, hdown⟩ := exists_segments_temporaryPath fs p file
  have hsame : SameFiles fs { fs with temporaries := fs.temporaries + 1 } := ⟨rfl, rfl, rfl⟩
  rw [writeFile, answer_bind, htemporary.1, htemporary.2]
  have hr : fs.Unrefused 3 ↔ Unrefused { fs with temporaries := fs.temporaries + 1 } 3 := Iff.rfl
  rw [hr]
  rw [← hsame.locate] at hopen hfree
  have he' : EndsInFile { fs with temporaries := fs.temporaries + 1 } p e name := by
    obtain ⟨hends, hrest⟩ := he
    exact ⟨(hsame.ending p).trans hends, hrest⟩
  exact answer_putting_moving hopen hfree hsegments hdown he' _

/-- Where the temporary name beside a path is free, nothing changes, or there is a file at the end
of the path and nothing else has changed. -/
theorem writeFile_eq_or_placed (h : fs.Grounded) (hfree : fs.FreeBeside p) (text : String) :
    (∃ error, answer (writeFile p text) fs = .error error ∧
      SameFiles fs (filesAfter (writeFile p text) fs)) ∨
    (answer (writeFile p text) fs = .ok () ∧ ∃ e name, fs.EndsInFile p e name ∧
      SameFiles (fs.place (e.directory ++ [name]) (.file (.text text)))
        (filesAfter (writeFile p text) fs)) := by
  cases hfile : p.fileName? with
  | none =>
    obtain ⟨hanswer, hfiles⟩ := writeFile_of_no_name hfile text
    exact .inl ⟨_, hanswer, by rw [hfiles]; exact .refl fs⟩
  | some file => exact (writing_writeFile h hfile text).eq_or_placed (hfree file hfile)

/-- Where the temporary name is free, a text is written exactly if nothing stands in the way. -/
theorem answer_writeFile_ok_iff (h : fs.Grounded) (hfree : fs.FreeBeside p) (text : String) :
    answer (writeFile p text) fs = .ok () ↔ fs.Unhindered p := by
  constructor
  · intro hok
    cases hfile : p.fileName? with
    | none => simp [(writeFile_of_no_name hfile text).1] at hok
    | some file =>
      have hw := writing_writeFile h hfile text
      rw [hok] at hw
      obtain ⟨m, hopen, hnamed⟩ := hw.opens (hfree file hfile)
      obtain ⟨error, hresult, -⟩ | ⟨-, e, name, he, -⟩ := hw.eq_or_placed (hfree file hfile)
      · cases hresult
      · exact ⟨⟨file, m, hfile, hopen⟩, ⟨e, name, he⟩,
          (answer_writeFile_iff hfile hopen hnamed he text).1 hok⟩
  · rintro ⟨⟨file, m, hfile, hopen⟩, ⟨e, name, he⟩, hr⟩
    obtain ⟨k, hm, hnamed, -⟩ := exists_free (hfree file hfile) hopen
    obtain rfl : m = k := Place.free.inj hm
    exact (answer_writeFile_iff hfile hopen hnamed he text).2 hr

/-! ### All or nothing -/

/-- Where the temporary name beside a path is free, a text is written exactly if nothing stands in
the way. If it is not, the files are as before. If it is, the name the path ends in bears a file
with the text, and nothing else has changed; the path leads to this file unless it needs a link that
the file has taken the place of. -/
theorem writeFile_all_or_nothing (h : fs.Grounded) (hfree : fs.FreeBeside p) (text : String) :
    (answer (writeFile p text) fs = .ok () ↔ fs.Unhindered p) ∧
    (∀ error, answer (writeFile p text) fs = .error error →
      SameFiles fs (filesAfter (writeFile p text) fs)) ∧
    (answer (writeFile p text) fs = .ok () → ∃ e name, fs.EndsInFile p e name ∧
      SameFiles (fs.place (e.directory ++ [name]) (.file (.text text)))
        (filesAfter (writeFile p text) fs) ∧
      ((filesAfter (writeFile p text) fs).entryAt p = .ok (.file (.text text)) ↔
        fs.LeadsWithout p (e.directory ++ [name])) ∧
      ((∀ target, fs.entry? (e.directory ++ [name]) ≠ some (.link target)) →
        fs.LeadsWithout p (e.directory ++ [name]))) := by
  refine ⟨answer_writeFile_ok_iff h hfree text, ?_⟩
  obtain ⟨error, hresult, same⟩ | ⟨hresult, e, name, he, same⟩ :=
    writeFile_eq_or_placed h hfree text
  · refine ⟨fun _ _ => same, fun hok => ?_⟩
    simp [hresult] at hok
  · refine ⟨fun error herror => ?_, fun _ => ⟨e, name, he, same, ?_, leadsWithout_of_no_link he⟩⟩
    · simp [hresult] at herror
    · rw [same.entryAt]
      exact entryAt_placed_iff h he _

theorem freeBeside_of_locate {file : String} {m : Location} (hfile : p.fileName? = some file)
    (htemporary : fs.temporaryPath p file = q) (hplace : fs.locate false q = .ok (.free m)) :
    fs.FreeBeside p := by
  intro file' hfile' l hl
  obtain rfl := Option.some.inj (hfile.symm.trans hfile')
  rw [htemporary, hplace] at hl
  cases hl

/-- A folder, and a link to it. -/
def linkedFolder : FileSystem where
  entries := [(["sub"], .directory), (["lnk"], .link "sub")]

theorem linkedFolder_grounded : linkedFolder.Grounded :=
  (by decide : linkedFolder.IsTree).toGrounded

theorem linkedFolder_unrefused : linkedFolder.Unrefused 3 := by
  simp [Unrefused, linkedFolder]

/-- A file can be written by way of the link, and the folder is in the way of one with its name. -/
theorem writeFile_all_or_nothing_sample :
    linkedFolder.Grounded ∧ linkedFolder.FreeBeside ⟨"/lnk/a"⟩ ∧ linkedFolder.FreeBeside ⟨"/sub"⟩ ∧
    (filesAfter (writeFile ⟨"/lnk/a"⟩ "hi") linkedFolder).entryAt ⟨"/lnk/a"⟩ =
      .ok (.file (.text "hi")) ∧
    SameFiles linkedFolder (filesAfter (writeFile ⟨"/sub"⟩ "hi") linkedFolder) := by
  have hname : Path.fileName? ⟨"/lnk/a"⟩ = some "a" := by decide +kernel
  have hbeside : linkedFolder.temporaryPath ⟨"/lnk/a"⟩ "a" = ⟨"/lnk/.a..0.tmp"⟩ := by
    decide +kernel
  have hnamed : linkedFolder.locate false ⟨"/lnk/.a..0.tmp"⟩ =
      .ok (.free ["sub", ".a..0.tmp"]) := by cbv
  have hopen : linkedFolder.locate true ⟨"/lnk/.a..0.tmp"⟩ =
      .ok (.free ["sub", ".a..0.tmp"]) := by cbv
  have hends : linkedFolder.ending ⟨"/lnk/a"⟩ = .ok ⟨["sub"], some "a", false⟩ := by cbv
  have hnone : linkedFolder.entry? ["sub", "a"] = none := by decide
  have hends' : linkedFolder.ending ⟨"/sub"⟩ = .ok ⟨[], some "sub", false⟩ := by cbv
  have hfree : linkedFolder.FreeBeside ⟨"/lnk/a"⟩ := freeBeside_of_locate hname hbeside hnamed
  have hfree' : linkedFolder.FreeBeside ⟨"/sub"⟩ :=
    freeBeside_of_locate (by decide +kernel : _ = some "sub")
      (by decide +kernel : _ = (⟨"/.sub..0.tmp"⟩ : Path))
      (by cbv : _ = Except.ok (Place.free [".sub..0.tmp"]))
  refine ⟨linkedFolder_grounded, hfree, hfree', ?_, ?_⟩
  · obtain ⟨hiff, -, hwritten⟩ := writeFile_all_or_nothing linkedFolder_grounded hfree "hi"
    have hunhindered : linkedFolder.Unhindered ⟨"/lnk/a"⟩ :=
      ⟨⟨"a", _, hname, hbeside ▸ hopen⟩, ⟨_, "a", hends, rfl, rfl, by simp [hnone]⟩,
        linkedFolder_unrefused⟩
    obtain ⟨e, name, ⟨he, hn, -⟩, -, hentry, hlead⟩ := hwritten (hiff.2 hunhindered)
    obtain rfl := Except.ok.inj (hends.symm.trans he)
    obtain rfl : "a" = name := Option.some.inj hn
    exact hentry.2 (hlead fun target => by simp [hnone])
  · obtain ⟨hiff, hfailed, -⟩ := writeFile_all_or_nothing linkedFolder_grounded hfree' "hi"
    cases hresult : answer (writeFile ⟨"/sub"⟩ "hi") linkedFolder with
    | error error => exact hfailed error hresult
    | ok u =>
      obtain ⟨-, ⟨e, name, he, hn, -, hd⟩, -⟩ := hiff.1 hresult
      obtain rfl := Except.ok.inj (hends'.symm.trans he)
      obtain rfl : "sub" = name := Option.some.inj hn
      exact absurd (by decide) hd

/-- A path leads by a link to a folder, out of the folder and to the link itself. The file takes the
place of the link, and the path does not lead to it. -/
theorem writeFile_all_or_nothing_astray :
    linkedFolder.Grounded ∧ linkedFolder.FreeBeside ⟨"/lnk/../lnk"⟩ ∧
    answer (writeFile ⟨"/lnk/../lnk"⟩ "hi") linkedFolder = .ok () ∧
    (filesAfter (writeFile ⟨"/lnk/../lnk"⟩ "hi") linkedFolder).entryAt ⟨"/lnk/../lnk"⟩ ≠
      .ok (.file (.text "hi")) := by
  have hname : Path.fileName? ⟨"/lnk/../lnk"⟩ = some "lnk" := by decide +kernel
  have hbeside : linkedFolder.temporaryPath ⟨"/lnk/../lnk"⟩ "lnk" = ⟨"/lnk/../.lnk..0.tmp"⟩ := by
    decide +kernel
  have hnamed : linkedFolder.locate false ⟨"/lnk/../.lnk..0.tmp"⟩ =
      .ok (.free [".lnk..0.tmp"]) := by cbv
  have hopen : linkedFolder.locate true ⟨"/lnk/../.lnk..0.tmp"⟩ =
      .ok (.free [".lnk..0.tmp"]) := by cbv
  have hends : linkedFolder.ending ⟨"/lnk/../lnk"⟩ = .ok ⟨[], some "lnk", false⟩ := by cbv
  have hlost : (linkedFolder.remove ["lnk"]).ending ⟨"/lnk/../lnk"⟩ = .error .notFound := by cbv
  have hfree : linkedFolder.FreeBeside ⟨"/lnk/../lnk"⟩ :=
    freeBeside_of_locate hname hbeside hnamed
  have hok : answer (writeFile ⟨"/lnk/../lnk"⟩ "hi") linkedFolder = .ok () :=
    (answer_writeFile_ok_iff linkedFolder_grounded hfree "hi").2
      ⟨⟨"lnk", _, hname, hbeside ▸ hopen⟩, ⟨_, "lnk", hends, rfl, rfl, by decide⟩,
        linkedFolder_unrefused⟩
  refine ⟨linkedFolder_grounded, hfree, hok, fun hentry => ?_⟩
  obtain ⟨error, hresult, -⟩ | ⟨-, e, name, he, same⟩ :=
    writeFile_eq_or_placed linkedFolder_grounded hfree "hi"
  · cases hok.symm.trans hresult
  · rw [same.entryAt, entryAt_placed_iff linkedFolder_grounded he] at hentry
    obtain rfl := Except.ok.inj (hends.symm.trans he.1)
    obtain rfl : "lnk" = name := Option.some.inj he.2.1
    cases hlost.symm.trans (hentry.trans hends)

end FileRoutes.FileSystem
