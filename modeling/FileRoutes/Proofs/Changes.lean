import FileRoutes.FileSystem.Writing
import FileRoutes.Proofs.Following
import Mathlib.Logic.Relation

/-!
# Changes of files

Every change of files is made of a few: the system decides on a change or counts a file, a
directory is put where nothing was, or a file is put or taken away. Without links these happen
at the locations that the paths lead to by their text, so that every file elsewhere stays, and
so do all directories.

## The model

* `Action.answer`, `Action.filesAfter` — what an action comes to, and the files after it.
* `Change` — one change; `may` are the locations at which files may be put or taken away.
* `Reaches` — any number of changes.
* `IsTemporary` — the locations of files that are written before they are moved.

## What is proved

* `Reaches.noLinks`, `Reaches.keepsDirectories`, `Reaches.file_kept` — what changes keep.
* `reaches_ensureDirectory` — making a directory is made of such changes.
* `writeFile_spec` — so is writing a file, and a text that has been written can be read.
-/

namespace FileRoutes.FileSystem

open FileRoutes.Path (GoesDown follow landing)

/-! ### Answers -/

namespace Action

variable {α β : Type}

/-- What an action comes to. -/
def answer (x : Action α) (fs : FileSystem) : Except Error α := ((ExceptT.run x) fs).1

/-- The files after an action. -/
def filesAfter (x : Action α) (fs : FileSystem) : FileSystem := ((ExceptT.run x) fs).2

theorem run_bind (x : Action α) (f : α → Action β) (fs : FileSystem) :
    ExceptT.run (x >>= f) fs = match answer x fs with
      | .ok a => ExceptT.run (f a) (filesAfter x fs)
      | .error e => (.error e, filesAfter x fs) := by
  unfold answer filesAfter
  show (ExceptT.run x >>= ExceptT.bindCont f) fs = _
  simp only [bind, StateT.bind]
  rcases ExceptT.run x fs with ⟨_ | a, s⟩ <;> rfl

theorem run_tryCatch (x : Action α) (h : Error → Action α) (fs : FileSystem) :
    ExceptT.run (tryCatch x h) fs = match answer x fs with
      | .ok a => (.ok a, filesAfter x fs)
      | .error e => ExceptT.run (h e) (filesAfter x fs) := by
  have hrun : ExceptT.run x fs = x fs := rfl
  simp only [answer, filesAfter, hrun, tryCatch, tryCatchThe, MonadExceptOf.tryCatch,
    ExceptT.tryCatch, ExceptT.run_mk, bind, StateT.bind]
  rcases x fs with ⟨_ | a, s⟩ <;> rfl

theorem answer_bind (x : Action α) (f : α → Action β) (fs : FileSystem) :
    answer (x >>= f) fs = match answer x fs with
      | .ok a => answer (f a) (filesAfter x fs)
      | .error e => .error e := by
  rw [answer, run_bind]
  split <;> rfl

theorem filesAfter_bind (x : Action α) (f : α → Action β) (fs : FileSystem) :
    filesAfter (x >>= f) fs = match answer x fs with
      | .ok a => filesAfter (f a) (filesAfter x fs)
      | .error _ => filesAfter x fs := by
  rw [filesAfter, run_bind]
  split <;> rfl

theorem answer_tryCatch (x : Action α) (h : Error → Action α) (fs : FileSystem) :
    answer (tryCatch x h) fs = match answer x fs with
      | .ok a => .ok a
      | .error e => answer (h e) (filesAfter x fs) := by
  rw [answer, run_tryCatch]
  split <;> rfl

theorem filesAfter_tryCatch (x : Action α) (h : Error → Action α) (fs : FileSystem) :
    filesAfter (tryCatch x h) fs = match answer x fs with
      | .ok _ => filesAfter x fs
      | .error e => filesAfter (h e) (filesAfter x fs) := by
  rw [filesAfter, run_tryCatch]
  split <;> rfl

section basic

variable (fs fs' : FileSystem) (a : α) (e : Error) (f : FileSystem → FileSystem)

@[simp] theorem answer_pure : answer (pure a) fs = .ok a := rfl

@[simp] theorem filesAfter_pure : filesAfter (pure a) fs = fs := rfl

@[simp] theorem answer_throw : answer (throw e : Action α) fs = .error e := rfl

@[simp] theorem filesAfter_throw : filesAfter (throw e : Action α) fs = fs := rfl

@[simp] theorem answer_get : answer (get : Action FileSystem) fs = .ok fs := rfl

@[simp] theorem filesAfter_get : filesAfter (get : Action FileSystem) fs = fs := rfl

@[simp] theorem answer_set : answer (set fs' : Action PUnit) fs = .ok ⟨⟩ := rfl

@[simp] theorem filesAfter_set : filesAfter (set fs' : Action PUnit) fs = fs' := rfl

@[simp] theorem answer_modify : answer (modify f : Action PUnit) fs = .ok ⟨⟩ := rfl

@[simp] theorem filesAfter_modify : filesAfter (modify f : Action PUnit) fs = f fs := rfl

end basic

@[simp] theorem answer_ask (question : FileSystem → Except Error α) (fs : FileSystem) :
    answer (ask question) fs = question fs := by
  simp only [ask, answer_bind, answer_get, filesAfter_get]
  cases question fs <;> rfl

@[simp] theorem filesAfter_ask (question : FileSystem → Except Error α) (fs : FileSystem) :
    filesAfter (ask question) fs = fs := by
  simp only [ask, filesAfter_bind, answer_get, filesAfter_get]
  cases question fs <;> rfl

end Action

open Action

/-! ### Entries -/

section entries

variable (fs : FileSystem)

/-- The files once the system has decided on a change. -/
def decided : FileSystem := { fs with refusals := fs.refusals.tail }

@[simp] theorem filesAfter_permit : filesAfter permit fs = fs.decided := by
  simp only [permit, filesAfter_bind, answer_get, filesAfter_get, decided]
  rcases hr : fs.refusals with _ | ⟨_ | e, later⟩
  · cases fs
    simp_all
  · simp
  · simp [filesAfter_bind]

@[simp] theorem entry_decided (l : Location) : fs.decided.entry? l = fs.entry? l := rfl

@[simp] theorem workingDirectory_decided : fs.decided.workingDirectory = fs.workingDirectory := rfl

theorem entry_root : fs.entry? [] = some .directory := rfl

theorem entry_place_self {l : Location} (h : l ≠ []) (e : Entry) :
    entry? (fs.place l e) l = some e := by
  rw [FileSystem.entry?, if_neg h]
  exact Keyed.get_put_self l e fs.entries

theorem entry_place_of_ne {l m : Location} (h : l ≠ m) (e : Entry) :
    entry? (fs.place m e) l = fs.entry? l := by
  unfold entry?
  split
  · rfl
  · exact Keyed.get_put_of_ne h e fs.entries

theorem entry_remove_of_ne {l m : Location} (h : l ≠ m) :
    entry? (fs.remove m) l = fs.entry? l := by
  unfold entry?
  split
  · rfl
  · exact Keyed.get_erase_of_ne h fs.entries

theorem entry_remove_self {l : Location} (h : l ≠ []) : entry? (fs.remove l) l = none := by
  rw [FileSystem.entry?, if_neg h]
  exact Keyed.get_erase_self l fs.entries

end entries

/-! ### Changes -/

/-- One change of files; `may` are the locations at which files may be put or taken away. -/
inductive Change (may : Location → Prop) : FileSystem → FileSystem → Prop
  /-- The system decides on a change. -/
  | decides (fs : FileSystem) : Change may fs fs.decided
  /-- A temporary file is counted. -/
  | counts (fs : FileSystem) : Change may fs { fs with temporaries := fs.temporaries + 1 }
  /-- A directory is put where nothing was. -/
  | makes (fs : FileSystem) (l : Location) (free : fs.entry? l = none) :
      Change may fs (fs.place l .directory)
  /-- A file is put where no directory was. -/
  | puts (fs : FileSystem) (l : Location) (content : Content) (place : may l)
      (noDirectory : fs.entry? l ≠ some .directory) : Change may fs (fs.place l (.file content))
  /-- What is no directory is taken away. -/
  | removes (fs : FileSystem) (l : Location) (place : may l)
      (noDirectory : fs.entry? l ≠ some .directory) : Change may fs (fs.remove l)

/-- Any number of changes. -/
abbrev Reaches (may : Location → Prop) : FileSystem → FileSystem → Prop :=
  Relation.ReflTransGen (Change may)

variable {may : Location → Prop} {fs fs' : FileSystem}

theorem ne_root_of_entry {l : Location} (h : fs.entry? l ≠ some .directory) : l ≠ [] := by
  rintro rfl
  exact h fs.entry_root

/-- After a change, every location holds what it held, a new directory, or what may be there. -/
theorem Change.entry_cases (h : Change may fs fs') (l : Location) :
    fs'.entry? l = fs.entry? l ∨
      (fs.entry? l = none ∧ fs'.entry? l = some .directory) ∨
      (may l ∧ fs.entry? l ≠ some .directory ∧ ∀ target, fs'.entry? l ≠ some (.link target)) := by
  cases h with
  | decides => exact .inl rfl
  | counts => exact .inl rfl
  | makes m free =>
    by_cases hl : l = m
    · subst hl
      have hnone : fs.entry? l ≠ some .directory := by simp [free]
      have hm : l ≠ [] := ne_root_of_entry hnone
      exact .inr (.inl ⟨free, entry_place_self fs hm _⟩)
    · exact .inl (entry_place_of_ne fs hl _)
  | puts m content place noDirectory =>
    by_cases hl : l = m
    · subst hl
      refine .inr (.inr ⟨place, noDirectory, ?_⟩)
      simp [entry_place_self fs (ne_root_of_entry noDirectory)]
    · exact .inl (entry_place_of_ne fs hl _)
  | removes m place noDirectory =>
    by_cases hl : l = m
    · subst hl
      refine .inr (.inr ⟨place, noDirectory, ?_⟩)
      simp [entry_remove_self fs (ne_root_of_entry noDirectory)]
    · exact .inl (entry_remove_of_ne fs hl)

theorem Change.workingDirectory (h : Change may fs fs') :
    fs'.workingDirectory = fs.workingDirectory := by
  cases h <;> rfl

/-- Changes make no links. -/
theorem Reaches.noLinks (h : Reaches may fs fs') (hn : fs.NoLinks) : fs'.NoLinks := by
  induction h with
  | refl => exact hn
  | tail _ hc ih =>
    intro l target
    obtain he | ⟨-, he⟩ | ⟨-, -, he⟩ := hc.entry_cases l
    · rw [he]
      exact ih l target
    · simp [he]
    · exact he target

/-- Changes keep directories. -/
theorem Reaches.keepsDirectories (h : Reaches may fs fs') : KeepsDirectories fs fs' := by
  induction h with
  | refl => exact ⟨rfl, fun _ he => he⟩
  | tail _ hc ih =>
    refine ⟨hc.workingDirectory.trans ih.here, fun l he => ?_⟩
    have hd := ih.directories l he
    obtain hk | ⟨hk, -⟩ | ⟨-, hk, -⟩ := hc.entry_cases l
    · exact hk.trans hd
    · simp [hk] at hd
    · exact absurd hd hk

/-- Changes are made by one process, and the system comes to refuse nothing that it would not
refuse before. -/
theorem Reaches.process (h : Reaches may fs fs') : fs'.processTag = fs.processTag ∧
    (fs.refusals = [] → fs'.refusals = []) := by
  induction h with
  | refl => exact ⟨rfl, id⟩
  | tail _ hc ih =>
    cases hc with
    | decides => exact ⟨ih.1, fun hr => congrArg List.tail (ih.2 hr)⟩
    | counts => exact ih
    | makes => exact ih
    | puts => exact ih
    | removes => exact ih

/-- Changes keep the files at locations where they may not put or take away any. -/
theorem Reaches.file_kept (h : Reaches may fs fs') {l : Location} {content : Content}
    (hl : ¬ may l) (he : fs.entry? l = some (.file content)) :
    fs'.entry? l = some (.file content) := by
  induction h with
  | refl => exact he
  | tail _ hc ih =>
    obtain hk | ⟨hk, -⟩ | ⟨hm, -⟩ := hc.entry_cases l
    · exact hk.trans ih
    · simp [hk] at ih
    · exact absurd hm hl

theorem Reaches.mono {may' : Location → Prop} (h : Reaches may fs fs')
    (hm : ∀ l, may l → may' l) : Reaches may' fs fs' := by
  refine Relation.ReflTransGen.mono (fun a b hc => ?_) _ _ h
  cases hc with
  | decides => exact .decides a
  | counts => exact .counts a
  | makes l free => exact .makes a l free
  | puts l content place noDirectory => exact .puts a l content (hm l place) noDirectory
  | removes l place noDirectory => exact .removes a l (hm l place) noDirectory

/-! ### Steps of actions -/

section steps

variable {α β : Type}

theorem reaches_bind {x : Action α} {f : α → Action β} (hx : Reaches may fs (filesAfter x fs))
    (hf : ∀ a, answer x fs = .ok a →
      Reaches may (filesAfter x fs) (filesAfter (f a) (filesAfter x fs))) :
    Reaches may fs (filesAfter (x >>= f) fs) := by
  rw [filesAfter_bind]
  cases ha : answer x fs with
  | ok a => exact hx.trans (hf a ha)
  | error e => exact hx

theorem reaches_tryCatch {x : Action α} {h : Error → Action α}
    (hx : Reaches may fs (filesAfter x fs))
    (hh : ∀ e, answer x fs = .error e →
      Reaches may (filesAfter x fs) (filesAfter (h e) (filesAfter x fs))) :
    Reaches may fs (filesAfter (tryCatch x h) fs) := by
  rw [filesAfter_tryCatch]
  cases ha : answer x fs with
  | ok a => exact hx
  | error e => exact hx.trans (hh e ha)

/-! ### Making directories -/

theorem reaches_makeDirectory (p : Path) : Reaches may fs (filesAfter (makeDirectory p) fs) := by
  simp only [makeDirectory, filesAfter_bind, answer_ask, filesAfter_ask]
  split
  · next e he =>
    split
    · exact .refl
    · next name hn =>
      simp only [filesAfter_bind, answer_get, filesAfter_get]
      split
      · exact .refl
      · next hfree =>
        have hnone : fs.entry? (e.directory ++ [name]) = none := by simpa using hfree
        simp only [filesAfter_bind, filesAfter_permit]
        split
        · exact .tail (.single (.decides fs)) (.makes _ _ hnone)
        · exact .single (.decides fs)
  · exact .refl

theorem reaches_makeOrKeep (p : Path) : Reaches may fs (filesAfter (makeOrKeep p) fs) := by
  refine reaches_tryCatch (reaches_makeDirectory p) fun e _ => reaches_bind .refl fun fs' _ => ?_
  split <;> exact .refl

theorem reaches_ensureFirst (ps : List Path) : Reaches may fs (filesAfter (ensureFirst ps) fs) := by
  induction ps generalizing fs with
  | nil => exact .refl
  | cons p above ih =>
    rw [ensureFirst]
    split
    · exact .refl
    · refine reaches_tryCatch (reaches_makeOrKeep p) fun e _ => ?_
      split
      · exact reaches_bind ih fun _ _ => reaches_makeOrKeep p
      · exact .refl

theorem reaches_ensureDirectory (p : Path) :
    Reaches may fs (filesAfter (ensureDirectory p) fs) := reaches_ensureFirst _

/-! ### Writing files -/

variable (may) in
/-- Opening a file puts it where the path leads, unless a fault keeps everything as it is. -/
theorem openFile_cases (h : fs.NoLinks) (p : Path) :
    (∃ e, answer (openFile p) fs = .error e ∧ Reaches may fs (filesAfter (openFile p) fs)) ∨
    (answer (openFile p) fs = .ok (landing fs.workingDirectory p) ∧
      fs.entry? (landing fs.workingDirectory p) ≠ some .directory ∧
      filesAfter (openFile p) fs =
        fs.decided.place (landing fs.workingDirectory p) (.file (.text ""))) := by
  simp only [openFile, filesAfter_bind, answer_bind, answer_ask, filesAfter_ask]
  cases hl : fs.locate true p with
  | error e => exact .inl ⟨e, rfl, .refl⟩
  | ok place =>
    rw [← locate_location h hl]
    simp only [answer_get, filesAfter_get]
    by_cases hd : fs.entry? place.location = some .directory
    · simp only [if_pos hd, filesAfter_bind, answer_bind, answer_throw]
      exact .inl ⟨_, rfl, .refl⟩
    · simp only [if_neg hd, filesAfter_bind, answer_bind, filesAfter_permit]
      cases hp : answer permit fs with
      | error e => exact .inl ⟨e, rfl, .single (.decides fs)⟩
      | ok u => exact .inr ⟨rfl, hd, rfl⟩

/-- Putting a file changes where the path leads, and it is there with its content on success. -/
theorem putFile_spec (h : fs.NoLinks) (p : Path) (content : Content)
    (hmay : may (landing fs.workingDirectory p)) :
    Reaches may fs (filesAfter (putFile p content) fs) ∧
      (answer (putFile p content) fs = .ok () →
        entry? (filesAfter (putFile p content) fs) (landing fs.workingDirectory p) =
          some (.file content)) := by
  simp only [putFile, filesAfter_bind, answer_bind]
  obtain ⟨e, ha, hr⟩ | ⟨ha, hd, hf⟩ := openFile_cases may h p
  · rw [ha]
    exact ⟨hr, fun hok => by cases hok⟩
  · simp only [ha, hf, filesAfter_permit]
    generalize landing fs.workingDirectory p = l at hmay hd ⊢
    have hroot : l ≠ [] := ne_root_of_entry hd
    have hopened : Reaches may fs (fs.decided.place l (.file (.text ""))) :=
      .tail (.single (.decides fs)) (.puts _ l _ hmay hd)
    have hfile : entry? (fs.decided.place l (.file (.text ""))) l = some (.file (.text "")) :=
      entry_place_self _ hroot _
    cases hp : answer permit (fs.decided.place l (.file (.text ""))) with
    | error e => exact ⟨hopened.tail (.decides _), fun hok => by cases hok⟩
    | ok u =>
      refine ⟨(hopened.tail (.decides _)).tail (.puts _ l _ hmay ?_), fun _ => ?_⟩
      · simp [hfile]
      · exact entry_place_self _ hroot _

theorem reaches_removeFile (h : fs.NoLinks) (p : Path)
    (hmay : may (landing fs.workingDirectory p)) :
    Reaches may fs (filesAfter (removeFile p) fs) := by
  simp only [removeFile, filesAfter_bind, answer_ask, filesAfter_ask]
  cases hl : fs.locate false p with
  | error e => exact .refl
  | ok place =>
    have hplace := locate_location h hl
    simp only [answer_get, filesAfter_get]
    cases place with
    | free l => exact .refl
    | found l =>
      obtain rfl : l = landing fs.workingDirectory p := hplace
      by_cases hd : fs.entry? (landing fs.workingDirectory p) = some .directory
      · simp only [if_pos hd]
        exact .refl
      · simp only [if_neg hd]
        exact .single (.removes fs _ hmay hd)

/-- Something that leaves a file to be removed where it fails. -/
theorem orRemoving_spec {α : Type} {x : Action α} (h : fs.NoLinks) (p : Path)
    (hmay : may (landing fs.workingDirectory p)) (hx : Reaches may fs (filesAfter x fs)) :
    Reaches may fs (filesAfter (orRemoving p x) fs) ∧
      ∀ a, answer (orRemoving p x) fs = .ok a →
        answer x fs = .ok a ∧ filesAfter (orRemoving p x) fs = filesAfter x fs := by
  constructor
  · refine reaches_tryCatch hx fun e _ => reaches_bind ?_ fun _ _ => .refl
    refine reaches_tryCatch (reaches_removeFile (hx.noLinks h) p ?_) fun _ _ => .refl
    rwa [hx.keepsDirectories.here]
  · intro a ha
    rw [orRemoving, answer_tryCatch] at ha
    rw [orRemoving, filesAfter_tryCatch]
    cases hxa : answer x fs with
    | ok b =>
      rw [hxa] at ha
      exact ⟨ha, rfl⟩
    | error e =>
      simp only [hxa, answer_bind] at ha
      split at ha <;> cases ha

/-! ### Moving files -/

variable (fs) in
/-- Moving a file fails and leaves all files, or puts what stands at one last name at another. -/
theorem moveFile_cases (source target : Path) :
    (∃ e, ExceptT.run (moveFile source target) fs = (.error e, fs) ∨
      ExceptT.run (moveFile source target) fs = (.error e, fs.decided)) ∨
    ∃ s t sourceName targetName e, fs.ending source = .ok s ∧ s.name = some sourceName ∧
      fs.ending target = .ok t ∧ t.name = some targetName ∧ t.slash = false ∧
      fs.entry? (s.directory ++ [sourceName]) = some e ∧
      fs.entry? (t.directory ++ [targetName]) ≠ some .directory ∧
      ExceptT.run (moveFile source target) fs =
        (.ok (), (fs.decided.remove (s.directory ++ [sourceName])).place
          (t.directory ++ [targetName]) e) := by
  have hget : ∀ f : FileSystem → Action Unit, ExceptT.run (get >>= f) fs = ExceptT.run (f fs) fs :=
    fun f => rfl
  rw [moveFile, run_bind, answer_ask, filesAfter_ask]
  cases hse : fs.ending source with
  | error e => exact .inl ⟨e, .inl rfl⟩
  | ok s =>
    dsimp only
    rw [run_bind, answer_ask, filesAfter_ask]
    cases hte : fs.ending target with
    | error e => exact .inl ⟨e, .inl rfl⟩
    | ok t =>
      dsimp only
      split
      · next sourceName targetName hsn htn =>
        rw [hget]
        cases he : fs.entry? (s.directory ++ [sourceName]) with
        | none => exact .inl ⟨_, .inl rfl⟩
        | some e =>
          dsimp only
          split
          · exact .inl ⟨_, .inl rfl⟩
          · next hslash =>
            split
            · exact .inl ⟨_, .inl rfl⟩
            · next hd =>
              rw [run_bind, filesAfter_permit]
              cases answer permit fs with
              | error e => exact .inl ⟨e, .inr rfl⟩
              | ok u =>
                have ht : t.slash = false := Bool.eq_false_iff.2 fun h => hslash (.inr h)
                exact .inr ⟨s, t, sourceName, targetName, e, rfl, hsn, rfl, htn, ht, he, hd, rfl⟩
      · exact .inl ⟨_, .inl rfl⟩

/-- Moving a file takes it away where it was and puts it where the target leads; on success the
target leads to it. -/
theorem moveFile_spec (h : fs.NoLinks) {source target : Path} {content : Content}
    (hsource : fs.entry? (landing fs.workingDirectory source) = some (.file content))
    (hs : may (landing fs.workingDirectory source))
    (ht : may (landing fs.workingDirectory target)) :
    Reaches may fs (filesAfter (moveFile source target) fs) ∧
      (answer (moveFile source target) fs = .ok () →
        (filesAfter (moveFile source target) fs).locate true target =
          .ok (.found (landing fs.workingDirectory target)) ∧
        entry? (filesAfter (moveFile source target) fs) (landing fs.workingDirectory target) =
          some (.file content)) := by
  unfold filesAfter answer
  obtain ⟨e, hr | hr⟩ | ⟨s, t, sourceName, targetName, e, hse, hsn, hte, htn, hslash, he, hd, hr⟩ :=
    moveFile_cases fs source target
  · rw [hr]
    exact ⟨.refl, fun hok => by cases hok⟩
  · rw [hr]
    exact ⟨.single (.decides fs), fun hok => by cases hok⟩
  · obtain ⟨-, -, -, -, -, -, -, -, hsl⟩ := ending_name h hse hsn
    obtain ⟨init, blanks, hsegments, hblanks, hdown, hshort, hcheck, hleads, htl⟩ :=
      ending_name h hte htn
    rw [hsl, hsource] at he
    obtain rfl : Entry.file content = e := Option.some.inj he
    rw [hr, hsl, htl]
    rw [htl] at hd
    have hroot := ne_root_of_entry hd
    have hremoved : entry? (fs.decided.remove (landing fs.workingDirectory source))
        (landing fs.workingDirectory target) ≠ some .directory := by
      by_cases heq : landing fs.workingDirectory target = landing fs.workingDirectory source
      · rw [heq, entry_remove_self _ (heq ▸ hroot)]
        simp
      · rwa [entry_remove_of_ne _ heq]
    have hreaches : Reaches may fs ((fs.decided.remove (landing fs.workingDirectory source)).place
        (landing fs.workingDirectory target) (.file content)) :=
      .tail (.tail (.single (.decides fs)) (.removes _ _ hs (by simp [hsource])))
        (.puts _ _ content ht hremoved)
    have hfile := entry_place_self (fs.decided.remove (landing fs.workingDirectory source)) hroot
      (.file content)
    refine ⟨hreaches, fun _ => ⟨?_, hfile⟩⟩
    refine (locate_eq_ok_iff (hreaches.noLinks h)).2 ⟨hcheck, ?_⟩
    rw [hreaches.keepsDirectories.here, hsegments, hblanks hslash]
    refine Leads.append hreaches.keepsDirectories hleads ?_
    rw [← htl]
    exact .file hdown hshort (htl ▸ hfile)

/-! ### Writing in one step -/

/-- The locations of files that are written before they are moved. -/
def IsTemporary (l : Location) : Prop :=
  ∃ name, l.getLast? = some name ∧ ".tmp".toList <:+ name.toList

variable (fs) in
/-- A temporary file is counted, and its path leads to a location of temporary files. -/
theorem temporaryBeside_cases (p : Path) :
    (∃ e, ExceptT.run (temporaryBeside p) fs = (.error e, fs)) ∨
    ∃ temporary, IsTemporary (landing fs.workingDirectory temporary) ∧
      ExceptT.run (temporaryBeside p) fs =
        (.ok temporary, { fs with temporaries := fs.temporaries + 1 }) := by
  unfold temporaryBeside
  cases hn : p.fileName? with
  | none => exact .inl ⟨_, rfl⟩
  | some name =>
    refine .inr ⟨_, ?_, rfl⟩
    generalize hstart : "." ++ name ++ "." ++ fs.processTag ++ "." ++ toString fs.temporaries = start
    have hrelative : Path.isAbsolute ⟨start ++ ".tmp"⟩ = false := by
      simp [Path.isAbsolute, ← hstart]
    obtain ⟨init, last, hsplit⟩ := Text.exists_split_append ".tmp" (by decide) start
    have hdown : GoesDown (last ++ ".tmp") := Path.goesDown_append (by decide) last
    rw [Path.landing_join hrelative, Path.segments, hsplit, Path.follow_append,
      Path.follow_goesDown (by simpa using hdown)]
    exact ⟨last ++ ".tmp", by simp, ⟨last.toList, by simp⟩⟩

variable (may) in
/-- A text that is put in one place and moved to another can be read there on success. -/
theorem putAndMove_spec (text : String) (h : fs.NoLinks) {temporary p : Path}
    (ht : may (landing fs.workingDirectory temporary)) (hp : may (landing fs.workingDirectory p)) :
    let action : Action Unit := do
      orRemoving temporary (putFile temporary (.text text))
      orRemoving temporary (moveFile temporary p)
    Reaches may fs (filesAfter action fs) ∧
      (answer action fs = .ok () → (filesAfter action fs).readText p = .ok text) := by
  intro action
  simp only [action, filesAfter_bind, answer_bind]
  obtain ⟨hput, hputfile⟩ := putFile_spec h temporary (.text text) ht
  obtain ⟨hkept, hkeptok⟩ := orRemoving_spec h temporary ht hput
  cases ha : answer (orRemoving temporary (putFile temporary (.text text))) fs with
  | error e => exact ⟨hkept, fun hok => by cases hok⟩
  | ok u =>
    obtain ⟨haput, hfput⟩ := hkeptok u ha
    rw [hfput]
    dsimp only
    have hfile := hputfile haput
    generalize filesAfter (putFile temporary (.text text)) fs = put at hput hfile
    have hn := hput.noLinks h
    rw [← hput.keepsDirectories.here] at ht hp hfile
    obtain ⟨hmove, hmoved⟩ := moveFile_spec hn hfile ht hp
    obtain ⟨hkept', hkeptok'⟩ := orRemoving_spec hn temporary ht hmove
    refine ⟨hput.trans hkept', fun hok => ?_⟩
    obtain ⟨hamove, hfmove⟩ := hkeptok' () hok
    rw [hfmove]
    refine (readText_eq_ok_iff (hmove.noLinks hn)).2 ?_
    rw [hmove.keepsDirectories.here]
    exact hmoved hamove

/-- Writing a file changes where the path leads and locations of temporary files; on success
the path leads to the text. -/
theorem writeFile_spec (h : fs.NoLinks) (p : Path) (text : String) :
    Reaches (fun l => l = landing fs.workingDirectory p ∨ IsTemporary l) fs
        (filesAfter (writeFile p text) fs) ∧
      (answer (writeFile p text) fs = .ok () →
        (filesAfter (writeFile p text) fs).readText p = .ok text) := by
  rw [writeFile, filesAfter_bind, answer_bind]
  obtain ⟨e, hr⟩ | ⟨temporary, htemporary, hr⟩ := temporaryBeside_cases fs p
  · simp only [answer, filesAfter, hr]
    exact ⟨.refl, fun hok => by cases hok⟩
  · have ha : answer (temporaryBeside p) fs = .ok temporary := congrArg Prod.fst hr
    have hf : filesAfter (temporaryBeside p) fs = { fs with temporaries := fs.temporaries + 1 } :=
      congrArg Prod.snd hr
    rw [ha, hf]
    have hcount : Change (fun l => l = landing fs.workingDirectory p ∨ IsTemporary l) fs
        { fs with temporaries := fs.temporaries + 1 } := .counts fs
    generalize { fs with temporaries := fs.temporaries + 1 } = counted at hcount
    have hn := Reaches.noLinks (.single hcount) h
    obtain ⟨hreaches, hread⟩ := putAndMove_spec
      (fun l => l = landing fs.workingDirectory p ∨ IsTemporary l) text hn
      (.inr (hcount.workingDirectory ▸ htemporary)) (.inl (by rw [hcount.workingDirectory]))
    exact ⟨(Relation.ReflTransGen.single hcount).trans hreaches, hread⟩

end steps

end FileRoutes.FileSystem
