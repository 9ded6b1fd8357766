import FileRoutes.Proofs.Trees

/-!
# Making directories

Making a directory, with those above it as far as they are missing, puts directories into
directories where nothing was, and changes nothing else, whether or not it succeeds. Where it
succeeds, the path leads to a directory afterwards.

## The model

* `Growth`, `Grows` — a step of making directories, and any number of them.
* `Kept` — what stands at a location stays, though a directory may be made where nothing is.

## What is proved

* `Grows.entry_cases`, `Grows.keepsWays`, `Grows.isTree` — what making directories keeps.
* `grows_ensureDirectory` — this is all that becomes of the files.
* `passesTo_ensureDirectory` — a path leads somewhere once its directory has been made.
-/

namespace FileRoutes.FileSystem

open FileRoutes.Path (GoesDown)
open Action

/-- One step of making directories. -/
inductive Growth : FileSystem → FileSystem → Prop
  /-- The system decides on a change. -/
  | decides (fs : FileSystem) : Growth fs fs.decided
  /-- A directory is put into a directory, where nothing was. -/
  | makes (fs : FileSystem) (l : Location) (name : String) (isName : IsName name)
      (directory : fs.entry? l = some .directory) (free : fs.entry? (l ++ [name]) = none) :
      Growth fs (fs.place (l ++ [name]) .directory)

/-- Any number of steps. -/
abbrev Grows : FileSystem → FileSystem → Prop := Relation.ReflTransGen Growth

variable {fs fs' : FileSystem} {l : Location}

/-- What stands at a location stays, though a directory may be made where nothing is. -/
def Kept (l : Location) (fs fs' : FileSystem) : Prop :=
  fs'.entry? l = fs.entry? l ∨ fs.entry? l = none ∧ fs'.entry? l = some .directory

namespace Kept

theorem trans {fs'' : FileSystem} (h : Kept l fs fs') (h' : Kept l fs' fs'') : Kept l fs fs'' := by
  obtain h' | ⟨hnone, hd⟩ := h'
  · rw [Kept, h']
    exact h
  · obtain h | ⟨-, hd'⟩ := h
    · exact .inr ⟨h ▸ hnone, hd⟩
    · simp [hnone] at hd'

/-- Whatever is there stays. -/
theorem entry (h : Kept l fs fs') {e : Entry} (he : fs.entry? l = some e) :
    fs'.entry? l = some e := by
  obtain h | ⟨hnone, -⟩ := h
  · exact h.trans he
  · simp [hnone] at he

/-- A file that is kept was there before and is there afterwards. -/
theorem file_iff (h : Kept l fs fs') {content : Content} :
    fs'.entry? l = some (.file content) ↔ fs.entry? l = some (.file content) := by
  obtain h | ⟨hnone, hd⟩ := h
  · rw [h]
  · simp [hnone, hd]

end Kept

/-! ### What is kept -/

theorem Growth.kept (h : Growth fs fs') (l : Location) : Kept l fs fs' := by
  cases h with
  | decides => exact .inl rfl
  | makes m name isName directory free =>
    by_cases hl : l = m ++ [name]
    · subst hl
      exact .inr ⟨free, entry_place_self _ (by simp) _⟩
    · exact .inl (entry_place_of_ne _ hl _)

/-- Where directories are made, every location holds what it held, or a new directory. -/
theorem Grows.kept (h : Grows fs fs') (l : Location) : Kept l fs fs' := by
  induction h with
  | refl => exact .inl rfl
  | tail _ hstep ih => exact ih.trans (hstep.kept l)

theorem Grows.entry_cases (h : Grows fs fs') (l : Location) :
    fs'.entry? l = fs.entry? l ∨ fs.entry? l = none ∧ fs'.entry? l = some .directory := h.kept l

theorem Grows.entry_kept (h : Grows fs fs') {e : Entry} (he : fs.entry? l = some e) :
    fs'.entry? l = some e := (h.kept l).entry he

theorem Grows.workingDirectory (h : Grows fs fs') :
    fs'.workingDirectory = fs.workingDirectory := by
  induction h with
  | refl => rfl
  | tail _ hstep ih => cases hstep <;> exact ih

theorem Grows.processTag (h : Grows fs fs') : fs'.processTag = fs.processTag := by
  induction h with
  | refl => rfl
  | tail _ hstep ih => cases hstep <;> exact ih

theorem Grows.keepsWays (h : Grows fs fs') : KeepsWays fs fs' :=
  ⟨⟨h.workingDirectory, fun _ => h.entry_kept⟩, fun _ _ => h.entry_kept⟩

theorem Grows.link (h : Grows fs fs') {target : String}
    (he : fs'.entry? l = some (.link target)) : fs.entry? l = some (.link target) := by
  obtain hk | ⟨-, hd⟩ := h.entry_cases l
  · exact hk.symm.trans he
  · simp [hd] at he

theorem Grows.noLinksBelow (h : Grows fs fs') (hn : fs.NoLinksBelow l) : fs'.NoLinksBelow l :=
  fun rel target hrel he => hn rel target hrel (h.link he)

theorem Grows.noLinks (h : Grows fs fs') (hn : fs.NoLinks) : fs'.NoLinks :=
  fun l target he => hn l target (h.link he)

theorem Grows.grounded (h : Grows fs fs') (hg : fs.Grounded) : fs'.Grounded := by
  induction h with
  | refl => exact hg
  | tail _ hstep ih =>
    cases hstep with
    | decides => exact ⟨ih.parents, ih.here⟩
    | makes l name isName directory free => exact ih.place directory fun _ => rfl

theorem Grows.isTree (h : Grows fs fs') (ht : fs.IsTree) : fs'.IsTree := by
  induction h with
  | refl => exact ht
  | tail _ hstep ih =>
    cases hstep with
    | decides => exact ⟨⟨ih.parents, ih.here⟩, ih.nodup, ih.names⟩
    | makes l name isName directory free => exact ih.place isName directory fun _ => rfl

/-! ### Steps -/

theorem noNul_of_mem_segments {p : Path} (h : checkPath p = .ok ()) {s : String}
    (hs : s ∈ p.segments) : '\x00' ∉ s.toList := by
  intro hm
  unfold checkPath at h
  rw [if_pos (Text.mem_of_mem_split hs hm)] at h
  cases h

/-- The last name of a path is one that an entry can have, and its directory is there. -/
theorem ending_parts (h : fs.Grounded) {p : Path} {e : Ending} {name : String}
    (he : fs.ending p = .ok e) (hn : e.name = some name) :
    IsName name ∧ fs.entry? e.directory = some .directory ∧
      ∃ init blanks m, p.segments = init ++ name :: blanks ∧ (∀ b ∈ blanks, b = "") ∧
        (e.slash = false → blanks = []) ∧
        fs.Passes greatestLinks (startOf p.text fs.workingDirectory) init m e.directory := by
  obtain ⟨init, blanks, hsegments, hblanks, hslash, hdown, hshort, hcheck, hwalk⟩ :=
    ending_segments he hn
  have hmem : name ∈ p.segments := by simp [hsegments]
  obtain ⟨m, l', hpasses, hw⟩ := exists_passes (by simp) hwalk
  obtain rfl : l' = e.directory := by
    rw [walk_slash] at hw
    exact Place.found.inj (Except.ok.inj hw)
  exact ⟨⟨hdown, Path.not_mem_of_mem_segments hmem, noNul_of_mem_segments hcheck hmem, hshort⟩,
    hpasses.entry_directory h (directory_startOf h.here _), init, blanks, m, hsegments, hblanks,
    hslash, hpasses⟩

/-- A directory is made where its name is free, or nothing changes. -/
theorem makeDirectory_cases (h : fs.Grounded) (p : Path) :
    (∃ e, answer (makeDirectory p) fs = .error e ∧
      Grows fs (filesAfter (makeDirectory p) fs)) ∨
    (answer (makeDirectory p) fs = .ok () ∧ Grows fs (filesAfter (makeDirectory p) fs) ∧
      ∃ l, (filesAfter (makeDirectory p) fs).PassesTo p l) := by
  simp only [makeDirectory, answer_bind, filesAfter_bind, answer_ask, filesAfter_ask]
  cases he : fs.ending p with
  | error err => exact .inl ⟨err, rfl, .refl⟩
  | ok e =>
    dsimp only
    cases hn : e.name with
    | none => exact .inl ⟨_, rfl, .refl⟩
    | some name =>
      simp only [answer_bind, filesAfter_bind, answer_get, filesAfter_get]
      by_cases hsome : (fs.entry? (e.directory ++ [name])).isSome = true
      · rw [if_pos hsome]
        exact .inl ⟨_, rfl, .refl⟩
      · have hfree : fs.entry? (e.directory ++ [name]) = none := by simpa using hsome
        rw [if_neg hsome]
        simp only [answer_bind, filesAfter_bind, filesAfter_permit]
        cases hp : answer permit fs with
        | error err => exact .inl ⟨err, rfl, .single (.decides fs)⟩
        | ok u =>
          simp only [answer_modify, filesAfter_modify]
          obtain ⟨hname, hd, init, blanks, m, hsegments, hblanks, -, hpasses⟩ := ending_parts h he hn
          have hgrows : Grows fs (fs.decided.place (e.directory ++ [name]) .directory) :=
            .tail (.single (.decides fs)) (.makes _ _ _ hname hd hfree)
          refine .inr ⟨trivial, hgrows, e.directory ++ [name], m, ?_⟩
          have hway := hpasses.kept hgrows.keepsWays
          rw [hgrows.workingDirectory, hsegments]
          refine hway.append (.directory hname.down hname.short ?_ ?_)
          · exact entry_place_self _ (by simp) _
          · exact passes_saysNothing m _ fun b hb => by rw [hblanks b hb]; decide

/-- A directory is there afterwards where making or keeping it succeeds. -/
theorem makeOrKeep_cases (h : fs.Grounded) (p : Path) :
    (∃ e, answer (makeOrKeep p) fs = .error e ∧ Grows fs (filesAfter (makeOrKeep p) fs)) ∨
    (answer (makeOrKeep p) fs = .ok () ∧ Grows fs (filesAfter (makeOrKeep p) fs) ∧
      ∃ l, (filesAfter (makeOrKeep p) fs).PassesTo p l) := by
  rw [makeOrKeep, answer_tryCatch, filesAfter_tryCatch]
  obtain ⟨e, ha, hg⟩ | ⟨ha, hg, hp⟩ := makeDirectory_cases h p
  · simp only [ha, answer_bind, filesAfter_bind, answer_get, filesAfter_get]
    generalize filesAfter (makeDirectory p) fs = made at hg
    split
    · next hd =>
      refine .inr ⟨rfl, hg, ?_⟩
      unfold isDirectory entryAt at hd
      cases hr : made.resolve p with
      | error err => simp [hr, bind, Except.bind] at hd
      | ok l =>
        cases hl : made.entry? l with
        | none => simp [hr, hl, bind, Except.bind, throw, throwThe, MonadExceptOf.throw] at hd
        | some entry =>
          simp only [hr, hl, bind, Except.bind, pure, Except.pure, Except.ok.injEq,
            decide_eq_true_eq] at hd
          subst hd
          exact ⟨l, passesTo_of_locate (locate_of_resolve hr) hl⟩
    · exact .inl ⟨e, rfl, hg⟩
  · rw [ha]
    exact .inr ⟨rfl, hg, hp⟩

theorem passesTo_of_empty {p : Path} (hp : p.text = "") : fs.PassesTo p fs.workingDirectory := by
  have hs : p.segments = [""] := by
    rw [Path.segments, hp]
    decide
  refine ⟨greatestLinks, ?_⟩
  rw [hs, hp]
  exact .nothing (by decide) .here

/-- Making directories puts directories where nothing was, and where it succeeds the first path
leads to a directory. -/
theorem ensureFirst_cases (h : fs.Grounded) (ps : List Path) :
    Grows fs (filesAfter (ensureFirst ps) fs) ∧
      (answer (ensureFirst ps) fs = .ok () → ∀ p ∈ ps.head?,
        ∃ l, (filesAfter (ensureFirst ps) fs).PassesTo p l) := by
  induction ps generalizing fs with
  | nil => exact ⟨.refl, by simp⟩
  | cons p above ih =>
    rw [ensureFirst]
    split
    · next hp => exact ⟨.refl, fun _ q hq => by
        obtain rfl := Option.some.inj hq
        exact ⟨_, passesTo_of_empty hp⟩⟩
    · rw [answer_tryCatch, filesAfter_tryCatch]
      obtain ⟨e, ha, hg⟩ | ⟨ha, hg, hl⟩ := makeOrKeep_cases h p
      · simp only [ha]
        split
        · obtain ⟨habove, -⟩ := ih (hg.grounded h)
          have hgrows : Grows fs _ := hg.trans habove
          simp only [answer_bind, filesAfter_bind]
          cases hab : answer (ensureFirst above) (filesAfter (makeOrKeep p) fs) with
          | error err => exact ⟨hgrows, fun hok => by cases hok⟩
          | ok u =>
            obtain ⟨e', ha', hg'⟩ | ⟨ha', hg', hl'⟩ :=
              makeOrKeep_cases (hgrows.grounded h) p
            · exact ⟨hgrows.trans hg', fun hok => by rw [ha'] at hok; cases hok⟩
            · refine ⟨hgrows.trans hg', fun _ q hq => ?_⟩
              obtain rfl := Option.some.inj hq
              exact hl'
        · exact ⟨hg, fun hok => by cases hok⟩
      · simp only [ha]
        refine ⟨hg, fun _ q hq => ?_⟩
        obtain rfl := Option.some.inj hq
        exact hl

theorem grows_ensureDirectory (h : fs.Grounded) (p : Path) :
    Grows fs (filesAfter (ensureDirectory p) fs) := (ensureFirst_cases h _).1

/-- A path leads somewhere once its directory has been made. -/
theorem passesTo_ensureDirectory (h : fs.Grounded) {p : Path}
    (ha : answer (ensureDirectory p) fs = .ok ()) :
    ∃ l, (filesAfter (ensureDirectory p) fs).PassesTo p l :=
  (ensureFirst_cases h _).2 ha p rfl

end FileRoutes.FileSystem
