import FileRoutes.Proofs.Growth
import FileRoutes.Proofs.Successes

/-!
# Writing in one step

A text is put into a temporary file, which is then moved. This module says exactly what becomes
of the files, whatever stands in the way and whatever the system refuses: the temporary name is
free afterwards, and the path leads to the whole text or to what was there before.

## The model

* `SameFiles` — two states that hold the same files.
* `SameWays` — two states with the same directories and links.
* `LeadsTo` — a path leads to a location, a link at its end followed or not.
* `Writing` — how writing a text can end, one rule for each way.
* `IsPut` — the temporary file has been put, and nothing else has happened.

## What is proved

* `writing_writeFile` — these are the ways in which it ends.
* `Writing.entry_eq` — everything stays that neither the path nor the temporary path leads to.
* `writeFile_plain` — without a link under the temporary name, it is all or nothing.
-/

namespace FileRoutes.FileSystem

open FileRoutes.Path (GoesDown)
open Action

variable {fs fs' : FileSystem} {n : Nat} {l : Location} {ps : List String} {last : Bool}

/-! ### States with the same files -/

/-- Two states hold the same files. -/
structure SameFiles (fs fs' : FileSystem) : Prop where
  /-- The entries are the same. -/
  entries : fs'.entries = fs.entries
  /-- Relative paths start at the same place. -/
  here : fs'.workingDirectory = fs.workingDirectory
  /-- The process is the same. -/
  tag : fs'.processTag = fs.processTag

namespace SameFiles

theorem refl (fs : FileSystem) : SameFiles fs fs := ⟨rfl, rfl, rfl⟩

theorem trans {fs'' : FileSystem} (h : SameFiles fs fs') (h' : SameFiles fs' fs'') :
    SameFiles fs fs'' :=
  ⟨h'.entries.trans h.entries, h'.here.trans h.here, h'.tag.trans h.tag⟩

theorem decided (fs : FileSystem) : SameFiles fs fs.decided := ⟨rfl, rfl, rfl⟩

theorem entry (h : SameFiles fs fs') (l : Location) : fs'.entry? l = fs.entry? l := by
  rw [FileSystem.entry?, FileSystem.entry?, h.entries]

theorem place (h : SameFiles fs fs') (l : Location) (e : Entry) :
    SameFiles (fs.place l e) (fs'.place l e) :=
  ⟨by rw [FileSystem.place, FileSystem.place, h.entries], h.here, h.tag⟩

theorem remove (h : SameFiles fs fs') (l : Location) : SameFiles (fs.remove l) (fs'.remove l) :=
  ⟨by rw [FileSystem.remove, FileSystem.remove, h.entries], h.here, h.tag⟩

theorem grounded (h : SameFiles fs fs') (hg : fs.Grounded) : fs'.Grounded := by
  refine ⟨fun l name e he => ?_, ?_⟩
  · rw [h.entry] at he ⊢
    exact hg.parents l name e he
  · rw [h.here, h.entry]
    exact hg.here

theorem isTree (h : SameFiles fs fs') (ht : fs.IsTree) : fs'.IsTree :=
  ⟨h.grounded ht.toGrounded, h.entries ▸ ht.nodup, h.entries ▸ ht.names⟩

theorem walk (h : SameFiles fs fs') (last : Bool) (n : Nat) (l : Location) (ps : List String) :
    fs'.walk last n l ps = fs.walk last n l ps := by
  induction n using Nat.strongRecOn generalizing l ps with
  | _ n ihn =>
  induction ps generalizing l with
  | nil => rw [walk_nil, walk_nil]
  | cons piece rest ih =>
    rw [FileSystem.walk, FileSystem.walk]
    simp only [ih, h.entry]
    cases n with
    | zero => rfl
    | succ k =>
      have hk : ∀ m qs, fs'.walk last k m qs = fs.walk last k m qs :=
        fun m qs => ihn k (Nat.lt_succ_self k) m qs
      simp only [hk]

theorem locate (h : SameFiles fs fs') (last : Bool) (p : Path) :
    fs'.locate last p = fs.locate last p := by
  rw [FileSystem.locate, FileSystem.locate, h.walk, h.here]

theorem ending (h : SameFiles fs fs') (p : Path) : fs'.ending p = fs.ending p := by
  simp only [FileSystem.ending, h.walk, h.here]

end SameFiles

/-! ### States with the same directories and links -/

/-- Two states have the same directories and links. -/
structure SameWays (fs fs' : FileSystem) : Prop where
  /-- Relative paths start at the same place. -/
  here : fs'.workingDirectory = fs.workingDirectory
  /-- The directories are the same. -/
  directory_iff : ∀ l, fs'.entry? l = some .directory ↔ fs.entry? l = some .directory
  /-- The links are the same. -/
  link_iff : ∀ l target, fs'.entry? l = some (.link target) ↔ fs.entry? l = some (.link target)

namespace SameWays

theorem symm (h : SameWays fs fs') : SameWays fs' fs :=
  ⟨h.here.symm, fun l => (h.directory_iff l).symm, fun l target => (h.link_iff l target).symm⟩

theorem keepsWays (h : SameWays fs fs') : KeepsWays fs fs' :=
  ⟨⟨h.here, fun l => (h.directory_iff l).2⟩, fun l target => (h.link_iff l target).2⟩

/-- A file can be put where neither a directory nor a link is. -/
theorem of_place (hd : fs.entry? l ≠ some .directory)
    (hl : ∀ target, fs.entry? l ≠ some (.link target)) (content : Content) :
    SameWays fs (fs.place l (.file content)) := by
  have hself := entry_place_self fs (ne_root_of_entry hd) (.file content)
  refine ⟨rfl, fun m => ?_, fun m target => ?_⟩
  · by_cases hm : m = l
    · subst hm
      simp [hself, hd]
    · rw [entry_place_of_ne _ hm]
  · by_cases hm : m = l
    · subst hm
      simp [hself, hl]
    · rw [entry_place_of_ne _ hm]

/-- Pieces lead to the same location, though it may be free in one of the states only. -/
theorem walk (h : SameWays fs fs') {place : Place} (hwalk : fs.walk last n l ps = .ok place) :
    ∃ place', fs'.walk last n l ps = .ok place' ∧ place'.location = place.location := by
  induction n using Nat.strongRecOn generalizing l ps with
  | _ n ihn =>
  induction ps generalizing l with
  | nil =>
    rw [walk_nil] at hwalk
    cases hwalk
    exact ⟨_, walk_nil, rfl⟩
  | cons piece rest ih =>
    obtain ⟨hs, hw⟩ | ⟨rfl, hw⟩ |
      ⟨down, short, ⟨entry, hw⟩ | ⟨k, target, rfl, entry, hend, hw⟩ | ⟨rfl, hno, hplace, hlast⟩⟩ :=
        walk_cons_cases hwalk
    · rw [walk_nothing hs]
      exact ih hw
    · rw [walk_up]
      exact ih hw
    · rw [walk_of_directory down short ((h.directory_iff _).2 entry)]
      exact ih hw
    · rw [walk_link down short ((h.link_iff _ _).2 entry) hend]
      exact ihn k (Nat.lt_succ_self k) hw
    · cases hentry : fs'.entry? (l ++ [piece]) with
      | none => exact ⟨_, walk_of_none down short hentry, hplace.symm⟩
      | some e =>
        cases e with
        | directory => exact absurd ((h.directory_iff _).1 hentry) hno
        | file content => exact ⟨_, walk_of_file down short hentry, hplace.symm⟩
        | link target =>
          obtain rfl := hlast target ((h.link_iff _ _).1 hentry)
          exact ⟨_, walk_link_itself down short hentry, hplace.symm⟩

theorem locate (h : SameWays fs fs') {p : Path} {place : Place}
    (hp : fs.locate last p = .ok place) :
    ∃ place', fs'.locate last p = .ok place' ∧ place'.location = place.location := by
  obtain ⟨hcheck, hw⟩ := locate_ok_cases hp
  obtain ⟨place', hw', hl⟩ := h.walk hw
  refine ⟨place', ?_, hl⟩
  rw [FileSystem.locate, hcheck, h.here]
  exact hw'

/-- A path ends in the same name of the same directory. -/
theorem ending (h : SameWays fs fs') {p : Path} {e : Ending} {name : String}
    (he : fs.ending p = .ok e) (hn : e.name = some name) : fs'.ending p = .ok e := by
  obtain ⟨hcheck, hlast, hwalk, hdots, hshort, hslash⟩ := ending_eq_ok he hn
  obtain ⟨m, l', hpasses, hw⟩ := exists_passes (by simp) hwalk
  obtain rfl : l' = e.directory := by
    rw [walk_slash] at hw
    exact Place.found.inj (Except.ok.inj hw)
  have hkept := hpasses.kept h.keepsWays
  have hway : fs'.walk true greatestLinks (startOf p.text fs.workingDirectory)
      ((core p).dropLast ++ [""]) = fs'.walk true m e.directory [""] :=
    hkept.walk_append (by simp) true
  rw [walk_slash, ← h.here] at hway
  rw [ending_of_found hcheck hlast hway, if_neg hdots, if_neg hshort, ← hn, ← hslash]

end SameWays

/-! ### Where paths lead -/

/-- The path leads to the location, a link at its end followed or taken for itself. -/
def LeadsTo (fs : FileSystem) (p : Path) (l : Location) : Prop :=
  ∃ last place, fs.locate last p = .ok place ∧ place.location = l

/-- The path itself stands at the location: a link at its end is not followed. -/
def IsAt (fs : FileSystem) (p : Path) (l : Location) : Prop :=
  ∃ place, fs.locate false p = .ok place ∧ place.location = l

theorem IsAt.leadsTo {p : Path} (h : fs.IsAt p l) : fs.LeadsTo p l := ⟨false, h⟩

/-- A free place is one where nothing is. -/
theorem walk_free {m : Location} (h : fs.walk last n l ps = .ok (.free m)) :
    fs.entry? m = none := by
  induction n using Nat.strongRecOn generalizing l ps with
  | _ n ihn =>
  induction ps generalizing l with
  | nil =>
    rw [walk_nil] at h
    cases h
  | cons piece rest ih =>
    obtain ⟨hs, hw⟩ | ⟨rfl, hw⟩ |
      ⟨down, short, ⟨entry, hw⟩ | ⟨k, target, rfl, entry, hend, hw⟩ | ⟨rfl, hno, hplace, hlast⟩⟩ :=
        walk_cons_cases h
    · exact ih hw
    · exact ih hw
    · exact ih hw
    · exact ihn k (Nat.lt_succ_self k) hw
    · obtain rfl : m = l ++ [piece] := hplace
      cases hentry : fs.entry? (l ++ [piece]) with
      | none => rfl
      | some e =>
        cases e with
        | directory => exact absurd hentry hno
        | file content =>
          rw [walk_of_file down short hentry] at h
          cases h
        | link target =>
          obtain rfl := hlast target hentry
          rw [walk_link_itself down short hentry] at h
          cases h

/-- Where links are followed to their end, none is left. -/
theorem walk_no_link (hg : fs.Grounded) (hd : fs.entry? l = some .directory) {place : Place}
    (h : fs.walk true n l ps = .ok place) (target : String) :
    fs.entry? place.location ≠ some (.link target) := by
  induction n using Nat.strongRecOn generalizing l ps with
  | _ n ihn =>
  induction ps generalizing l with
  | nil =>
    rw [walk_nil] at h
    cases h
    simp [Place.location, hd]
  | cons piece rest ih =>
    obtain ⟨hs, hw⟩ | ⟨rfl, hw⟩ |
      ⟨down, short, ⟨entry, hw⟩ | ⟨k, target', rfl, entry, hend, hw⟩ | ⟨rfl, hno, hplace, hlast⟩⟩ :=
        walk_cons_cases h
    · exact ih hd hw
    · exact ih (hg.directory_dropLast hd) hw
    · exact ih entry hw
    · exact ihn k (Nat.lt_succ_self k) (directory_startOf hd target') hw
    · rw [hplace]
      intro he
      cases hlast target he

/-- What stands where a path is followed to its end stands in a directory. -/
theorem walk_parent (hg : fs.Grounded) (hd : fs.entry? l = some .directory) {place : Place}
    (h : fs.walk last n l ps = .ok place) :
    fs.entry? place.location.dropLast = some .directory := by
  induction n using Nat.strongRecOn generalizing l ps with
  | _ n ihn =>
  induction ps generalizing l with
  | nil =>
    rw [walk_nil] at h
    cases h
    exact hg.directory_dropLast hd
  | cons piece rest ih =>
    obtain ⟨hs, hw⟩ | ⟨rfl, hw⟩ |
      ⟨down, short, ⟨entry, hw⟩ | ⟨k, target', rfl, entry, hend, hw⟩ | ⟨rfl, hno, hplace, hlast⟩⟩ :=
        walk_cons_cases h
    · exact ih hd hw
    · exact ih (hg.directory_dropLast hd) hw
    · exact ih entry hw
    · exact ihn k (Nat.lt_succ_self k) (directory_startOf hd target') hw
    · rw [hplace, List.dropLast_concat]
      exact hd

/-- A path that is followed with a link at its end can be followed without it: to the same place,
or to that link. -/
theorem walk_false_of_true {place : Place} (h : fs.walk true n l ps = .ok place) :
    ∃ place', fs.walk false n l ps = .ok place' ∧
      (place' = place ∨ ∃ target, fs.entry? place'.location = some (.link target)) := by
  induction n using Nat.strongRecOn generalizing l ps with
  | _ n ihn =>
  induction ps generalizing l with
  | nil =>
    rw [walk_nil] at h
    cases h
    exact ⟨_, walk_nil, .inl rfl⟩
  | cons piece rest ih =>
    obtain ⟨hs, hw⟩ | ⟨rfl, hw⟩ |
      ⟨down, short, ⟨entry, hw⟩ | ⟨k, target, rfl, entry, hend, hw⟩ | ⟨rfl, hno, hplace, hlast⟩⟩ :=
        walk_cons_cases h
    · rw [walk_nothing hs]
      exact ih hw
    · rw [walk_up]
      exact ih hw
    · rw [walk_of_directory down short entry]
      exact ih hw
    · by_cases hrest : rest = []
      · subst hrest
        exact ⟨_, walk_link_itself down short entry, .inr ⟨target, entry⟩⟩
      · rw [walk_link down short entry fun h => hrest h.1]
        exact ihn k (Nat.lt_succ_self k) hw
    · cases hentry : fs.entry? (l ++ [piece]) with
      | none =>
        rw [walk_of_none down short hentry] at h ⊢
        exact ⟨_, h, .inl rfl⟩
      | some e =>
        cases e with
        | directory => exact absurd hentry hno
        | file content =>
          rw [walk_of_file down short hentry] at h ⊢
          exact ⟨_, h, .inl rfl⟩
        | link target => cases hlast target hentry

theorem locate_false_of_true {p : Path} {place : Place} (h : fs.locate true p = .ok place) :
    ∃ place', fs.locate false p = .ok place' ∧
      (place' = place ∨ ∃ target, fs.entry? place'.location = some (.link target)) := by
  obtain ⟨hcheck, hw⟩ := locate_ok_cases h
  obtain ⟨place', hw', hplace⟩ := walk_false_of_true hw
  exact ⟨place', by rw [locate, hcheck]; exact hw', hplace⟩

theorem locate_no_link (hg : fs.Grounded) {p : Path} {place : Place}
    (h : fs.locate true p = .ok place) (target : String) :
    fs.entry? place.location ≠ some (.link target) :=
  walk_no_link hg (directory_startOf hg.here _) (locate_ok_cases h).2 target

theorem locate_parent (hg : fs.Grounded) {p : Path} {place : Place}
    (h : fs.locate last p = .ok place) : fs.entry? place.location.dropLast = some .directory :=
  walk_parent hg (directory_startOf hg.here _) (locate_ok_cases h).2

theorem locate_free {p : Path} {m : Location} (h : fs.locate last p = .ok (.free m)) :
    fs.entry? m = none := walk_free (locate_ok_cases h).2

/-- A path that ends in a name leads to the name in the directory of the pieces before it. -/
theorem locate_name {p : Path} {init : List String} {name : String} {m : Nat}
    (hcheck : checkPath p = .ok ()) (hsegments : p.segments = init ++ [name])
    (hp : fs.Passes greatestLinks (startOf p.text fs.workingDirectory) init m l)
    (hdown : GoesDown name) (hshort : ¬ greatestName < name.utf8ByteSize)
    (hlast : ∀ target, fs.entry? (l ++ [name]) = some (.link target) → last = false) :
    ∃ place, fs.locate last p = .ok place ∧ place.location = l ++ [name] := by
  have hw : fs.locate last p = fs.walk last m l [name] := by
    rw [locate, hcheck, hsegments, ← hp.walk_append (by simp) last]
    rfl
  rw [hw]
  cases he : fs.entry? (l ++ [name]) with
  | none => exact ⟨_, walk_of_none hdown hshort he, rfl⟩
  | some e =>
    cases e with
    | directory => exact ⟨_, (walk_of_directory hdown hshort he).trans walk_nil, rfl⟩
    | file content => exact ⟨_, walk_of_file hdown hshort he, rfl⟩
    | link target =>
      obtain rfl := hlast target he
      exact ⟨_, walk_link_itself hdown hshort he, rfl⟩

/-- A path that ends in a name, without a slash behind it, leads there. -/
theorem locate_of_ending (h : fs.Grounded) {p : Path} {e : Ending} {name : String}
    (he : fs.ending p = .ok e) (hn : e.name = some name)
    (hs : e.slash = false ∨ p.segments.getLast? ≠ some "") :
    ∃ place, fs.locate false p = .ok place ∧ place.location = e.directory ++ [name] := by
  obtain ⟨hname, -, init, blanks, m, hsegments, hblanks, hslash, hpasses⟩ := ending_parts h he hn
  have hnil : blanks = [] := by
    rcases hs with hs | hs
    · exact hslash hs
    · rcases List.eq_nil_or_concat blanks with rfl | ⟨bs, b, rfl⟩
      · rfl
      · refine absurd ?_ hs
        rw [hsegments, hblanks b (by simp), List.concat_eq_append, ← List.cons_append,
          ← List.append_assoc, List.getLast?_concat]
  subst hnil
  exact locate_name (ending_eq_ok he hn).1 hsegments hpasses hname.down hname.short fun _ _ => rfl

/-- A file can be put where a path leads and no directory is. -/
theorem Grounded.place_located (h : fs.Grounded) {p : Path} {opened : Place}
    (hopen : fs.locate true p = .ok opened)
    (hd : fs.entry? opened.location ≠ some .directory) (content : Content) :
    (fs.place opened.location (.file content)).Grounded := by
  obtain ⟨d, name, hl⟩ := List.eq_nil_or_concat opened.location |>.resolve_left
    (ne_root_of_entry hd)
  have hparent := locate_parent h hopen
  rw [hl, List.concat_eq_append] at hd ⊢
  rw [hl, List.concat_eq_append, List.dropLast_concat] at hparent
  exact h.place hparent fun he => absurd he hd

/-- The name under which a file has been put bears the file, or the link that it was put
behind. -/
theorem exists_entry_named (h : fs.Grounded) {p : Path} {opened named : Place}
    (opens : fs.locate true p = .ok opened) (names : fs.locate false p = .ok named)
    (hd : fs.entry? opened.location ≠ some .directory) (content : Content) :
    ∃ e, entry? (fs.place opened.location (.file content)) named.location = some e ∧
      e ≠ .directory := by
  obtain ⟨place, hplace, hcases⟩ := locate_false_of_true opens
  obtain rfl := Except.ok.inj (hplace.symm.trans names)
  rcases hcases with rfl | ⟨target, hl⟩
  · exact ⟨_, entry_place_self fs (ne_root_of_entry hd) _, by simp⟩
  · have hne : place.location ≠ opened.location := fun he => locate_no_link h opens target (he ▸ hl)
    exact ⟨_, by rw [entry_place_of_ne _ hne]; exact hl, by simp⟩

theorem noDirectory_named (h : fs.Grounded) {p : Path} {opened named : Place}
    (opens : fs.locate true p = .ok opened) (names : fs.locate false p = .ok named)
    (hd : fs.entry? opened.location ≠ some .directory) (content : Content) :
    entry? (fs.place opened.location (.file content)) named.location ≠ some .directory := by
  obtain ⟨e, he, hne⟩ := exists_entry_named h opens names hd content
  rw [he]
  simpa using hne

/-! ### Steps of writing -/

variable (fs) in
/-- A file is put where the path leads, at first without content; or nothing changes. -/
theorem putFile_cases (p : Path) (content : Content) :
    (∃ e, answer (putFile p content) fs = .error e ∧
      SameFiles fs (filesAfter (putFile p content) fs)) ∨
    ∃ place, fs.locate true p = .ok place ∧ fs.entry? place.location ≠ some .directory ∧
      ((∃ e, answer (putFile p content) fs = .error e ∧
          SameFiles (fs.place place.location (.file (.text "")))
            (filesAfter (putFile p content) fs)) ∨
        (answer (putFile p content) fs = .ok () ∧
          SameFiles (fs.place place.location (.file content))
            (filesAfter (putFile p content) fs))) := by
  simp only [putFile, openFile, answer_bind, filesAfter_bind, answer_ask, filesAfter_ask]
  cases hl : fs.locate true p with
  | error e => exact .inl ⟨e, rfl, .refl fs⟩
  | ok place =>
    simp only [answer_get, filesAfter_get]
    by_cases hd : fs.entry? place.location = some .directory
    · simp only [if_pos hd, answer_bind, filesAfter_bind, answer_throw, filesAfter_throw]
      exact .inl ⟨_, rfl, .refl fs⟩
    · simp only [if_neg hd, answer_bind, filesAfter_bind, filesAfter_permit]
      cases answer permit fs with
      | error e => exact .inl ⟨e, rfl, .decided fs⟩
      | ok u =>
        simp only [answer_modify, filesAfter_modify, answer_pure, filesAfter_pure]
        refine .inr ⟨place, rfl, hd, ?_⟩
        cases answer permit (fs.decided.place place.location (.file (.text ""))) with
        | error e =>
          exact .inl ⟨e, rfl, ((SameFiles.decided fs).place _ _).trans (.decided _)⟩
        | ok u =>
          refine .inr ⟨rfl, ?_⟩
          have hsame := (((SameFiles.decided fs).place place.location (.file (.text ""))).trans
            (.decided _)).place place.location (.file content)
          rw [place_place] at hsame
          exact hsame

variable (fs) in
/-- What a path leads to is taken away, unless that is nothing or a directory. -/
theorem removeFile_cases (p : Path) :
    filesAfter (removeFile p) fs = fs ∨
    ∃ l, fs.locate false p = .ok (.found l) ∧ fs.entry? l ≠ some .directory ∧
      filesAfter (removeFile p) fs = fs.remove l := by
  simp only [removeFile, filesAfter_bind, answer_ask, filesAfter_ask]
  cases hl : fs.locate false p with
  | error e => exact .inl rfl
  | ok place =>
    simp only [answer_get, filesAfter_get]
    cases place with
    | free l => exact .inl rfl
    | found l =>
      by_cases hd : fs.entry? l = some .directory
      · simp only [if_pos hd, filesAfter_throw]
        exact .inl trivial
      · simp only [if_neg hd, filesAfter_set]
        exact .inr ⟨l, rfl, hd, rfl⟩

/-- A file or a link that a path leads to is taken away. -/
theorem filesAfter_removeFile {p : Path} {place : Place} {e : Entry}
    (hp : fs.locate false p = .ok place) (he : fs.entry? place.location = some e)
    (hd : e ≠ .directory) : filesAfter (removeFile p) fs = fs.remove place.location := by
  cases place with
  | free l => simp [Place.location, locate_free hp] at he
  | found l =>
    have hne : fs.entry? l ≠ some .directory := by
      rw [show fs.entry? l = some e from he]
      simpa using hd
    simp only [removeFile, filesAfter_bind, answer_ask, filesAfter_ask, hp, answer_get,
      filesAfter_get, if_neg hne, filesAfter_set]
    rfl

theorem orRemoving_of_error {α : Type} {x : Action α} {e : Error} (h : answer x fs = .error e)
    (q : Path) : answer (orRemoving q x) fs = .error e ∧
      filesAfter (orRemoving q x) fs = filesAfter (removeFile q) (filesAfter x fs) := by
  rw [orRemoving, answer_tryCatch, filesAfter_tryCatch, h]
  simp only [answer_bind, filesAfter_bind, answer_tryCatch, filesAfter_tryCatch]
  cases answer (removeFile q) (filesAfter x fs) <;> exact ⟨rfl, rfl⟩

/-! ### The whole -/

/-- How writing a text to a path can end, and what becomes of the files. The temporary file is
put where its path is followed to, and taken away where its path itself is. -/
inductive Writing (fs : FileSystem) (temporary p : Path) (text : String) :
    Except Error Unit → FileSystem → Prop
  /-- Nothing changes. -/
  | untouched (e : Error) {fs' : FileSystem} (same : SameFiles fs fs') :
      Writing fs temporary p text (.error e) fs'
  /-- What had the temporary name is taken away. -/
  | cleared (e : Error) {l : Location} {fs' : FileSystem}
      (named : fs.locate false temporary = .ok (.found l))
      (noDirectory : fs.entry? l ≠ some .directory) (same : SameFiles (fs.remove l) fs') :
      Writing fs temporary p text (.error e) fs'
  /-- The temporary file is put and taken away. -/
  | abandoned (e : Error) {opened named : Place} {content : Content} {fs' : FileSystem}
      (opens : fs.locate true temporary = .ok opened)
      (names : fs.locate false temporary = .ok named)
      (noDirectory : fs.entry? opened.location ≠ some .directory)
      (same : SameFiles
        ((fs.place opened.location (.file content)).remove named.location) fs') :
      Writing fs temporary p text (.error e) fs'
  /-- The temporary file is put and moved. -/
  | moved {opened named : Place} {e : Ending} {name : String} {entry : Entry} {fs' : FileSystem}
      (opens : fs.locate true temporary = .ok opened)
      (names : fs.locate false temporary = .ok named)
      (noDirectory : fs.entry? opened.location ≠ some .directory)
      (ends : fs.ending p = .ok e) (hname : e.name = some name) (slash : e.slash = false)
      (target : fs.entry? (e.directory ++ [name]) ≠ some .directory)
      (source : entry? (fs.place opened.location (.file (.text text))) named.location = some entry)
      (same : SameFiles
        (((fs.place opened.location (.file (.text text))).remove named.location).place
          (e.directory ++ [name]) entry) fs') :
      Writing fs temporary p text (.ok ()) fs'

/-- The temporary file has been put, and nothing else has happened. -/
structure IsPut (fs : FileSystem) (temporary : Path) (content : Content) (opened named : Place)
    (put : FileSystem) : Prop where
  /-- Everything stood in a directory. -/
  grounded : fs.Grounded
  /-- This is where the temporary path is followed to. -/
  opens : fs.locate true temporary = .ok opened
  /-- This is where the temporary path itself is. -/
  names : fs.locate false temporary = .ok named
  /-- No directory was there. -/
  noDirectory : fs.entry? opened.location ≠ some .directory
  /-- Now the file is there. -/
  same : SameFiles (fs.place opened.location (.file content)) put

namespace IsPut

variable {temporary p : Path} {text : String} {content : Content} {opened named : Place}
  {put again : FileSystem}

theorem sameWays (hp : IsPut fs temporary content opened named put) :
    SameWays fs (fs.place opened.location (.file content)) :=
  .of_place hp.noDirectory (locate_no_link hp.grounded hp.opens) content

/-- The temporary path itself is where it was. -/
theorem exists_named (hp : IsPut fs temporary content opened named put) :
    ∃ place, put.locate false temporary = .ok place ∧ place.location = named.location := by
  obtain ⟨place, hplace, hl⟩ := hp.sameWays.locate hp.names
  exact ⟨place, (hp.same.locate _ _).trans hplace, hl⟩

/-- The temporary file can be taken away. -/
theorem filesAfter_removeFile (hp : IsPut fs temporary content opened named put)
    (hs : SameFiles put again) :
    filesAfter (removeFile temporary) again = again.remove named.location := by
  obtain ⟨place, hplace, hl⟩ := hp.exists_named
  obtain ⟨e, he, hne⟩ :=
    exists_entry_named hp.grounded hp.opens hp.names hp.noDirectory content
  rw [← hl]
  refine FileSystem.filesAfter_removeFile ((hs.locate _ _).trans hplace) ?_ hne
  rw [hs.entry, hp.same.entry, hl]
  exact he

theorem abandoned (hp : IsPut fs temporary content opened named put) (hs : SameFiles put again)
    (e : Error) :
    Writing fs temporary p text (.error e) (filesAfter (removeFile temporary) again) := by
  rw [hp.filesAfter_removeFile hs]
  exact .abandoned e hp.opens hp.names hp.noDirectory ((hp.same.trans hs).remove _)

/-- With the whole text in it, the temporary file is moved, or taken away where that fails. -/
theorem moved (hp : IsPut fs temporary (.text text) opened named put)
    (hsegments : temporary.segments.getLast? ≠ some "") :
    Writing fs temporary p text (answer (orRemoving temporary (moveFile temporary p)) put)
      (filesAfter (orRemoving temporary (moveFile temporary p)) put) := by
  obtain ⟨e, hr⟩ |
      ⟨s, t, sourceName, targetName, moving, hse, hsn, hte, htn, hslash, he, htd, hr⟩ :=
    moveFile_cases put temporary p
  · have ha : answer (moveFile temporary p) put = .error e := by
      rcases hr with hr | hr <;> exact congrArg Prod.fst hr
    have hf : SameFiles put (filesAfter (moveFile temporary p) put) := by
      rcases hr with hr | hr
      · rw [show filesAfter (moveFile temporary p) put = put from congrArg Prod.snd hr]
        exact .refl put
      · rw [show filesAfter (moveFile temporary p) put = put.decided from congrArg Prod.snd hr]
        exact .decided put
    obtain ⟨ha', hf'⟩ := orRemoving_of_error ha temporary
    rw [ha', hf']
    exact hp.abandoned hf e
  · obtain ⟨ha', hf'⟩ := orRemoving_of_ok (congrArg Prod.fst hr) temporary
    have hf : filesAfter (moveFile temporary p) put = _ := congrArg Prod.snd hr
    rw [ha', hf', hf]
    -- What is moved is what the temporary path itself leads to.
    have hgrounded : put.Grounded :=
      hp.same.grounded (hp.grounded.place_located hp.opens hp.noDirectory _)
    obtain ⟨place, hplace, hsource⟩ := locate_of_ending hgrounded hse hsn (.inr hsegments)
    obtain ⟨_, hnamed, hlocation⟩ := hp.exists_named
    obtain rfl := Except.ok.inj (hplace.symm.trans hnamed)
    rw [← hsource, hlocation] at he ⊢
    rw [hp.same.entry] at he
    rw [hp.same.ending] at hte
    refine .moved hp.opens hp.names hp.noDirectory (hp.sameWays.symm.ending hte htn) htn hslash
      (fun hdir => htd ?_) he ?_
    · rw [hp.same.entry]
      exact (hp.sameWays.directory_iff _).2 hdir
    · exact ((hp.same.trans (.decided put)).remove _).place _ _

end IsPut

/-- The files at the start may be replaced by the same files. -/
theorem Writing.of_same {counted : FileSystem} (hs : SameFiles fs counted) {temporary p : Path}
    {text : String} {result : Except Error Unit} (h : Writing counted temporary p text result fs') :
    Writing fs temporary p text result fs' := by
  cases h with
  | untouched e same => exact .untouched e (hs.trans same)
  | cleared e named noDirectory same =>
    rw [hs.locate] at named
    rw [hs.entry] at noDirectory
    exact .cleared e named noDirectory ((hs.remove _).trans same)
  | abandoned e opens names noDirectory same =>
    rw [hs.locate] at opens names
    rw [hs.entry] at noDirectory
    exact .abandoned e opens names noDirectory (((hs.place _ _).remove _).trans same)
  | moved opens names noDirectory ends hname slash target source same =>
    rw [hs.locate] at opens names
    rw [hs.entry] at noDirectory target
    rw [hs.ending] at ends
    rw [(hs.place _ _).entry] at source
    exact .moved opens names noDirectory ends hname slash target source
      ((((hs.place _ _).remove _).place _ _).trans same)

/-- The temporary file beside a file. -/
def temporaryPath (fs : FileSystem) (p : Path) (file : String) : Path :=
  p.directory.join ⟨fs.temporaryName file⟩

theorem not_isAbsolute_temporaryName (fs : FileSystem) (file : String) :
    Path.isAbsolute ⟨fs.temporaryName file⟩ = false := by
  simp [Path.isAbsolute, temporaryName]

/-- The path of a temporary file ends in a name. -/
theorem exists_segments_temporaryPath (fs : FileSystem) (p : Path) (file : String) :
    ∃ init name, (fs.temporaryPath p file).segments = init ++ [name] ∧ GoesDown name := by
  obtain ⟨before, hjoin⟩ :=
    Path.exists_segments_join (not_isAbsolute_temporaryName fs file) p.directory
  obtain ⟨init, last, hsplit⟩ := Text.exists_split_append ".tmp" (by decide)
    ("." ++ file ++ "." ++ fs.processTag ++ "." ++ toString fs.temporaries)
  have hne : ∀ s : String, s.length < 4 → last ++ ".tmp" ≠ s := by
    rintro s hs rfl
    have hlength : (".tmp" : String).length = 4 := by decide
    rw [String.length_append, hlength] at hs
    omega
  refine ⟨before ++ init, last ++ ".tmp", ?_, ?_, hne ".." (by decide)⟩
  · rw [temporaryPath, hjoin, Path.segments, temporaryName, hsplit, ← List.append_assoc]
  · simp only [saysNothing, hne "" (by decide), hne "." (by decide), decide_false, Bool.or_self]

theorem getLast_segments_temporaryPath (fs : FileSystem) (p : Path) (file : String) :
    (fs.temporaryPath p file).segments.getLast? ≠ some "" := by
  obtain ⟨init, name, hsegments, hdown⟩ := exists_segments_temporaryPath fs p file
  rw [hsegments, List.getLast?_concat]
  rintro ⟨⟩
  exact absurd hdown (by decide)

/-- These are the ways in which writing a text ends. -/
theorem writing_writeFile (h : fs.Grounded) {p : Path} {file : String}
    (hfile : p.fileName? = some file) (text : String) :
    Writing fs (fs.temporaryPath p file) p text (answer (writeFile p text) fs)
      (filesAfter (writeFile p text) fs) := by
  have htemporary := temporaryBeside_of_name fs hfile
  rw [← temporaryPath] at htemporary
  have hsegments := getLast_segments_temporaryPath fs p file
  have hcounted : SameFiles fs { fs with temporaries := fs.temporaries + 1 } := ⟨rfl, rfl, rfl⟩
  rw [writeFile, answer_bind, filesAfter_bind, htemporary.1, htemporary.2]
  generalize fs.temporaryPath p file = temporary at hsegments
  generalize { fs with temporaries := fs.temporaries + 1 } = counted at hcounted
  refine .of_same hcounted ?_
  replace h := hcounted.grounded h
  dsimp only
  rw [answer_bind, filesAfter_bind]
  obtain ⟨e, ha, hf⟩ | ⟨opened, hopen, hd, hput⟩ := putFile_cases counted temporary (.text text)
  · obtain ⟨ha', hf'⟩ := orRemoving_of_error ha temporary
    rw [ha', hf']
    obtain hr | ⟨l, hl, hne, hr⟩ := removeFile_cases
      (filesAfter (putFile temporary (.text text)) counted) temporary
    · rw [hr]
      exact .untouched e hf
    · rw [hr]
      rw [hf.locate] at hl
      rw [hf.entry] at hne
      exact .cleared e hl hne (hf.remove l)
  · obtain ⟨named, hnamed, -⟩ := locate_false_of_true hopen
    obtain ⟨e, ha, hf⟩ | ⟨ha, hf⟩ := hput
    · obtain ⟨ha', hf'⟩ := orRemoving_of_error ha temporary
      rw [ha', hf']
      exact IsPut.abandoned ⟨h, hopen, hnamed, hd, hf⟩ (.refl _) e
    · obtain ⟨ha', hf'⟩ := orRemoving_of_ok ha temporary
      rw [ha', hf']
      exact IsPut.moved ⟨h, hopen, hnamed, hd, hf⟩ hsegments

/-- Nothing is written to a path that does not end in a name. -/
theorem writeFile_of_no_name {p : Path} (hfile : p.fileName? = none) (text : String) :
    answer (writeFile p text) fs = .error (.noFileName p) ∧
      filesAfter (writeFile p text) fs = fs := by
  have htemporary : answer (temporaryBeside p) fs = .error (.noFileName p) ∧
      filesAfter (temporaryBeside p) fs = fs := by
    simp only [temporaryBeside, hfile]
    exact ⟨rfl, rfl⟩
  rw [writeFile, answer_bind, filesAfter_bind, htemporary.1, htemporary.2]
  exact ⟨rfl, rfl⟩

namespace Writing

variable {temporary p : Path} {text : String} {result : Except Error Unit}

/-- A path that ends in a name of a directory stands there itself. -/
theorem isAt_of_ending (h : fs.Grounded) {e : Ending} {name : String}
    (he : fs.ending p = .ok e) (hn : e.name = some name) (hs : e.slash = false) :
    fs.IsAt p (e.directory ++ [name]) := by
  obtain ⟨place, hplace, hl⟩ := locate_of_ending h he hn (.inl hs)
  exact ⟨place, hplace, hl⟩

/-- Everything stays that the temporary path does not lead to, but for what stands at the path
itself where the writing succeeds. -/
theorem entry_eq (h : fs.Grounded) (hw : Writing fs temporary p text result fs')
    (ht : ¬ fs.LeadsTo temporary l) (hp : result = .ok () → ¬ fs.IsAt p l) :
    fs'.entry? l = fs.entry? l := by
  have hother : ∀ {last place}, fs.locate last temporary = .ok place → l ≠ place.location :=
    fun hplace he => ht ⟨_, _, hplace, he.symm⟩
  cases hw with
  | untouched e same => exact same.entry l
  | cleared e named noDirectory same =>
    exact (same.entry l).trans (entry_remove_of_ne _ (hother named))
  | abandoned e opens names noDirectory same =>
    rw [same.entry, entry_remove_of_ne _ (hother names), entry_place_of_ne _ (hother opens)]
  | moved opens names noDirectory ends hname slash target source same =>
    have htarget : l ≠ _ := fun he => hp rfl (he ▸ isAt_of_ending h ends hname slash)
    rw [same.entry, entry_place_of_ne _ htarget, entry_remove_of_ne _ (hother names),
      entry_place_of_ne _ (hother opens)]

/-- However it ends, everything stands in a directory. -/
theorem grounded (h : fs.Grounded) (hw : Writing fs temporary p text result fs') :
    fs'.Grounded := by
  cases hw with
  | untouched e same => exact same.grounded h
  | cleared e named noDirectory same => exact same.grounded (h.remove noDirectory)
  | abandoned e opens names noDirectory same =>
    exact same.grounded ((h.place_located opens noDirectory _).remove
      (noDirectory_named h opens names noDirectory _))
  | @moved opened named e name entry _ opens names noDirectory ends hname slash target source same =>
    have hnamed := noDirectory_named h opens names noDirectory (.text text)
    have hremoved := (h.place_located opens noDirectory (.text text)).remove hnamed
    obtain ⟨-, hdirectory, -⟩ := ending_parts h ends hname
    have hfile : entry ≠ .directory := by
      rintro rfl
      exact hnamed source
    -- The directory of the path is one before and after the file has been put and taken away.
    have hkept : ∀ {m}, entry? ((fs.place opened.location (.file (.text text))).remove
        named.location) m = some .directory ↔ fs.entry? m = some .directory := by
      intro m
      have hways : SameWays fs (fs.place opened.location (.file (.text text))) :=
        .of_place noDirectory (locate_no_link h opens) _
      refine ⟨fun hm => (hways.directory_iff m).1 ?_, fun hm =>
        directory_remove hnamed ((hways.directory_iff m).2 hm)⟩
      by_cases he : m = named.location
      · rw [he] at hm
        by_cases hroot : named.location = []
        · rw [he, hroot]
          rfl
        · rw [entry_remove_self _ hroot] at hm
          cases hm
      · rwa [entry_remove_of_ne _ he] at hm
    exact same.grounded (hremoved.place (hkept.2 hdirectory) fun he =>
      absurd (hkept.1 he) target)

/-- Without a link under the temporary name it is all or nothing: the path has the whole text,
or it is as it was, and the temporary name is free unless nothing has changed at all. -/
theorem plain (h : fs.Grounded) (hw : Writing fs temporary p text result fs') {t target : Location}
    (ht : ∀ l, fs.LeadsTo temporary l → l = t) (hp : ∀ l, fs.LeadsTo p l → l = target) :
    (∃ e, result = .error e ∧ (SameFiles fs fs' ∨
      fs.entry? t ≠ some .directory ∧ SameFiles (fs.remove t) fs')) ∨
    (result = .ok () ∧ fs.entry? t ≠ some .directory ∧ fs.entry? target ≠ some .directory ∧
      (∃ directory name, target = directory ++ [name] ∧ IsName name ∧
        fs.entry? directory = some .directory) ∧
      SameFiles ((fs.remove t).place target (.file (.text text))) fs') := by
  have hplace : ∀ {last place}, fs.locate last temporary = .ok place → place.location = t :=
    fun hl => ht _ ⟨_, _, hl, rfl⟩
  cases hw with
  | untouched e same => exact .inl ⟨e, rfl, .inl same⟩
  | cleared e named noDirectory same =>
    obtain rfl := hplace named
    exact .inl ⟨e, rfl, .inr ⟨noDirectory, same⟩⟩
  | abandoned e opens names noDirectory same =>
    rw [hplace opens] at noDirectory same
    rw [hplace names, remove_place] at same
    exact .inl ⟨e, rfl, .inr ⟨noDirectory, same⟩⟩
  | moved opens names noDirectory ends hname slash noTarget source same =>
    have htarget := hp _ (isAt_of_ending h ends hname slash).leadsTo
    rw [hplace opens] at noDirectory source same
    rw [hplace names] at source same
    rw [entry_place_self fs (ne_root_of_entry noDirectory)] at source
    obtain rfl := Option.some.inj source
    rw [remove_place, htarget] at same
    obtain ⟨hisName, hdirectory, -⟩ := ending_parts h ends hname
    rw [htarget] at noTarget
    exact .inr ⟨rfl, noDirectory, noTarget, ⟨_, _, htarget.symm, hisName, hdirectory⟩, same⟩

end Writing

end FileRoutes.FileSystem
