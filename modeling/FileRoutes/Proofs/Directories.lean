import FileRoutes.Proofs.Ends

/-!
# Making directories again

Where the system refuses nothing and no link is in the way, making a directory has one of four
ends, and the files afterwards decide which one it was: making it again comes to the same and
changes nothing. This stays so while directories stay directories and files stay files.

## The model

* `Keeping` — how making or keeping one directory ends, one rule for each way.
* `Ensuring` — how making a directory with those above it ends, one rule for each way.

## What is proved

* `keeping_makeOrKeep`, `ensuring_ensureFirst` — these are the ways in which they end.
* `Keeping.again` — it ends in the same way at any later time.
* `ensureDirectory_again`, `ensureDirectory_twice` — so does making a directory with those above
  it.
-/

namespace FileRoutes.FileSystem

open FileRoutes.Path (GoesDown StaysIn follow landing)
open FileSystem.Action

variable {fs fs' F : FileSystem} {p q : Path} {l : Location} {ps qs : List String}

/-! ### Making or keeping one directory -/

/-- What a path is that is passed: a directory. -/
theorem isDirectory_of_passesTo (hg : fs.Grounded) (hc : checkPath p = .ok ())
    (h : fs.PassesTo p l) : fs.isDirectory p = .ok true := by
  unfold isDirectory
  rw [entryAt_of_resolve (resolve_of_locate (h.locate_eq hc)) (h.entry_directory hg)]
  rfl

/-- What is a directory is passed. -/
theorem passesTo_of_isDirectory (h : fs.isDirectory p = .ok true) :
    checkPath p = .ok () ∧ ∃ l, fs.PassesTo p l := by
  unfold isDirectory entryAt at h
  cases hr : fs.resolve p with
  | error err => simp [hr, bind, Except.bind] at h
  | ok l =>
    have hlocate := locate_of_resolve hr
    cases hl : fs.entry? l with
    | none => simp [hr, hl, bind, Except.bind, throw, throwThe, MonadExceptOf.throw] at h
    | some entry =>
      simp only [hr, hl, bind, Except.bind, pure, Except.pure, Except.ok.injEq,
        decide_eq_true_eq] at h
      subst h
      exact ⟨(locate_ok_cases hlocate).1, l, passesTo_of_locate hlocate hl⟩

/-- Where a directory cannot be made and nothing has changed, it is kept if it is there. -/
theorem run_makeOrKeep_of_error {x : Error}
    (h : ExceptT.run (makeDirectory p) fs = (.error x, fs)) :
    ExceptT.run (makeOrKeep p) fs =
      (if fs.isDirectory p = .ok true then .ok () else .error x, fs) := by
  have ha : answer (makeDirectory p) fs = .error x := congrArg Prod.fst h
  have hf : filesAfter (makeDirectory p) fs = fs := congrArg Prod.snd h
  rw [makeOrKeep, run_tryCatch, ha]
  dsimp only
  rw [hf, run_bind, answer_get, filesAfter_get]
  dsimp only
  split
  · next hd =>
    rw [if_pos hd]
    rfl
  · next hd =>
    rw [if_neg hd]
    rfl

theorem makeDirectory_of_error {x : Error} (h : fs.ending p = .error x) :
    ExceptT.run (makeDirectory p) fs = (.error x, fs) := by
  rw [makeDirectory, run_bind, answer_ask, filesAfter_ask, h]

theorem makeDirectory_of_taken {e : Ending} (h : fs.ending p = .ok e)
    (ht : ∀ name, e.name = some name → ( fs.entry? (e.directory ++ [name])).isSome) :
    ExceptT.run (makeDirectory p) fs = (.error .alreadyExists, fs) := by
  rw [makeDirectory, run_bind, answer_ask, filesAfter_ask, h]
  dsimp only
  cases hn : e.name with
  | none => rfl
  | some name =>
    dsimp only
    rw [run_bind, answer_get, filesAfter_get]
    dsimp only
    rw [if_pos (ht name hn)]
    rfl

theorem makeDirectory_of_free {e : Ending} {name : String} (h : fs.ending p = .ok e)
    (hn : e.name = some name) (hf : fs.entry? (e.directory ++ [name]) = none)
    (hr : fs.refusals = []) :
    ExceptT.run (makeDirectory p) fs = (.ok (), fs.place (e.directory ++ [name]) .directory) := by
  rw [makeDirectory, run_bind, answer_ask, filesAfter_ask, h]
  dsimp only
  rw [hn]
  dsimp only
  rw [run_bind, answer_get, filesAfter_get]
  dsimp only
  rw [if_neg (by simp [hf]), run_bind, answer_permit hr, filesAfter_permit, decided_of_nil hr]
  rfl

/-- How making or keeping a directory ends where the system refuses nothing. -/
inductive Keeping (fs : FileSystem) (p : Path) : Except Error Unit → FileSystem → Prop
  /-- The path has no end. -/
  | astray {x : Error} (ends : fs.ending p = .error x) : Keeping fs p (.error x) fs
  /-- A file is at its end. -/
  | taken {e : Ending} {name : String} {content : Content} (ends : fs.ending p = .ok e)
      (named : e.name = some name)
      (entry : fs.entry? (e.directory ++ [name]) = some (.file content)) :
      Keeping fs p (.error .alreadyExists) fs
  /-- The directory is there. -/
  | kept {l : Location} (check : checkPath p = .ok ()) (passes : fs.PassesTo p l) :
      Keeping fs p (.ok ()) fs
  /-- Its name is free, and it is made. -/
  | made {e : Ending} {name : String} (ends : fs.ending p = .ok e) (named : e.name = some name)
      (free : fs.entry? (e.directory ++ [name]) = none) :
      Keeping fs p (.ok ()) (fs.place (e.directory ++ [name]) .directory)

section keeping

variable (hn : fs.NoLinks) (hg : fs.Grounded)

include hn hg in
/-- Each of these ways is one in which it ends. -/
theorem Keeping.run (hr : fs.refusals = []) {result : Except Error Unit}
    (h : Keeping fs p result fs') : ExceptT.run (makeOrKeep p) fs = (result, fs') := by
  cases h with
  | astray ends =>
    have hno : ¬ fs.isDirectory p = .ok true := fun hd => by
      obtain ⟨check, l, passes⟩ := passesTo_of_isDirectory hd
      obtain ⟨e, hok, -⟩ := ending_of_passesTo hn check passes
      rw [ends] at hok
      cases hok
    rw [run_makeOrKeep_of_error (makeDirectory_of_error ends), if_neg hno]
  | @taken e name content ends named entry =>
    have hno : ¬ fs.isDirectory p = .ok true := fun hd => by
      obtain ⟨check, l, passes⟩ := passesTo_of_isDirectory hd
      obtain ⟨e', hok, hdirectory⟩ := ending_of_passesTo hn check passes
      obtain rfl := Except.ok.inj (ends.symm.trans hok)
      rw [hdirectory name named] at entry
      cases entry
    have htaken : ∀ other, e.name = some other →
        ( fs.entry? (e.directory ++ [other])).isSome := fun other hother => by
      obtain rfl := Option.some.inj (named.symm.trans hother)
      rw [entry]
      rfl
    rw [run_makeOrKeep_of_error (makeDirectory_of_taken ends htaken), if_neg hno]
  | kept check passes =>
    obtain ⟨e, ends, hd⟩ := ending_of_passesTo hn check passes
    rw [run_makeOrKeep_of_error (makeDirectory_of_taken ends fun name hname => by
      rw [hd name hname]
      rfl), if_pos (isDirectory_of_passesTo hg check passes)]
  | made ends named free =>
    have hmade := makeDirectory_of_free ends named free hr
    have ha : answer (makeDirectory p) fs = .ok () := congrArg Prod.fst hmade
    have hf : filesAfter (makeDirectory p) fs = _ := congrArg Prod.snd hmade
    rw [makeOrKeep, run_tryCatch, ha, hf]

include hn hg in
/-- These are the ways in which it ends. -/
theorem keeping_makeOrKeep (hr : fs.refusals = []) (p : Path) :
    Keeping fs p (answer (makeOrKeep p) fs) (filesAfter (makeOrKeep p) fs) := by
  have hkeeping : ∃ result fs', Keeping fs p result fs' := by
    cases he : fs.ending p with
    | error x => exact ⟨_, _, .astray he⟩
    | ok e =>
      have hcheck := (ending_ok_cases he).1
      cases hname : e.name with
      | none =>
        obtain ⟨l, passes⟩ := passesTo_of_ending_none he hname
        exact ⟨_, _, .kept hcheck passes⟩
      | some name =>
        cases hentry : fs.entry? (e.directory ++ [name]) with
        | none => exact ⟨_, _, .made he hname hentry⟩
        | some entry =>
          cases entry with
          | file content => exact ⟨_, _, .taken he hname hentry⟩
          | directory =>
            exact ⟨_, _, .kept hcheck (passesTo_of_ending_directory hg he hname hentry)⟩
          | link target => exact absurd hentry (hn _ _)
  obtain ⟨result, fs', h⟩ := hkeeping
  have hrun := h.run hn hg hr
  rw [show answer (makeOrKeep p) fs = result from congrArg Prod.fst hrun,
    show filesAfter (makeOrKeep p) fs = fs' from congrArg Prod.snd hrun]
  exact h

end keeping

namespace Keeping

variable {result : Except Error Unit}

theorem later (h : Keeping fs p result fs') : Later fs fs' := by
  cases h with
  | made ends named free =>
    refine ⟨⟨rfl, fun m hm => ?_⟩, fun m content hm => ⟨content, ?_⟩⟩
    · rw [entry_place]
      split
      · rfl
      · exact hm
    · rw [entry_place]
      split
      · next hsame =>
        rw [hsame.1, free] at hm
        cases hm
      · exact hm
  | _ => exact .refl fs

/-- Where nothing is missing, making or keeping a directory ends at any later time as it ends
now, and it changes nothing. -/
theorem again (h : Keeping fs p result fs') (hn : fs.NoLinks) (hl : Later fs' F)
    (hF : F.Grounded) (hx : result ≠ .error .notFound) : Keeping F p result F := by
  have hlater := h.later.trans hl
  cases h with
  | astray ends => exact .astray (hlater.ending_error hn ends fun e => hx (congrArg _ e))
  | taken ends named entry =>
    obtain ⟨content', hentry⟩ := hlater.files _ _ entry
    exact .taken (hlater.ending_ok hn ends) named hentry
  | kept check passes => exact .kept check (hlater.passesTo hn passes)
  | @made e name ends named free =>
    have hmade := hl.directories (e.directory ++ [name]) (entry_place_self _ (by simp) _)
    exact .kept (ending_ok_cases ends).1
      (passesTo_of_ending_directory hF (hlater.ending_ok hn ends) named hmade)

/-- The files stay grounded. -/
theorem grounded (h : Keeping fs p result fs') (hn : fs.NoLinks) (hg : fs.Grounded)
    (hr : fs.refusals = []) : fs'.Grounded := by
  have hfiles : filesAfter (makeOrKeep p) fs = fs' := congrArg Prod.snd (h.run hn hg hr)
  rw [← hfiles]
  obtain ⟨-, -, hgrows⟩ | ⟨-, hgrows, -⟩ := makeOrKeep_cases hg p <;> exact hgrows.grounded hg

/-- Making or keeping a directory once more comes to the same. -/
theorem stable (h : Keeping fs p result fs') (hn : fs.NoLinks) (hg : fs.Grounded)
    (hr : fs.refusals = []) : Keeping fs' p result fs' := by
  have hgrounded := h.grounded hn hg hr
  cases h with
  | astray ends => exact .astray ends
  | taken ends named entry => exact .taken ends named entry
  | kept check passes => exact .kept check passes
  | made ends named free =>
    exact (Keeping.made ends named free).again hn (.refl _) hgrounded (by simp)

/-- Where something is missing, nothing is made. -/
theorem missing (h : Keeping fs p (.error .notFound) fs') :
    fs.ending p = .error .notFound ∧ fs' = fs := by
  cases h with
  | astray ends => exact ⟨ends, rfl⟩

end Keeping

/-! ### Making directories with those above them -/

theorem refusals_of_grows (h : Grows fs fs') (hr : fs.refusals = []) : fs'.refusals = [] := by
  induction h with
  | refl => exact hr
  | tail _ hstep ih =>
    cases hstep with
    | decides =>
      show List.tail _ = []
      rw [ih]
      rfl
    | makes => exact ih

theorem run_ensureFirst_cons (hp : p.text ≠ "") (above : List Path) (fs : FileSystem) :
    ExceptT.run (ensureFirst (p :: above)) fs = match answer (makeOrKeep p) fs with
      | .ok _ => (.ok (), filesAfter (makeOrKeep p) fs)
      | .error x =>
        if x = .notFound then
          match answer (ensureFirst above) (filesAfter (makeOrKeep p) fs) with
          | .ok _ => ExceptT.run (makeOrKeep p)
              (filesAfter (ensureFirst above) (filesAfter (makeOrKeep p) fs))
          | .error y => (.error y, filesAfter (ensureFirst above) (filesAfter (makeOrKeep p) fs))
        else (.error x, filesAfter (makeOrKeep p) fs) := by
  rw [ensureFirst, if_neg hp, run_tryCatch]
  cases answer (makeOrKeep p) fs with
  | ok u => rfl
  | error x =>
    dsimp only
    split
    · rw [run_bind]
      cases answer (ensureFirst above) (filesAfter (makeOrKeep p) fs) <;> rfl
    · rfl

/-- How making a directory with those above it ends where the system refuses nothing. -/
inductive Ensuring (fs : FileSystem) (p : Path) (above : List Path) :
    Except Error Unit → FileSystem → Prop
  /-- Nothing is missing. -/
  | first {result : Except Error Unit} {fs' : FileSystem} (keeping : Keeping fs p result fs')
      (present : result ≠ .error .notFound) : Ensuring fs p above result fs'
  /-- Something is missing, and those above cannot be made. -/
  | hindered {x : Error} {fs' : FileSystem} (missing : fs.ending p = .error .notFound)
      (run : ExceptT.run (ensureFirst above) fs = (.error x, fs')) :
      Ensuring fs p above (.error x) fs'
  /-- Something is missing, and those above are made before. -/
  | afterwards {result : Except Error Unit} {once fs' : FileSystem}
      (missing : fs.ending p = .error .notFound)
      (run : ExceptT.run (ensureFirst above) fs = (.ok (), once))
      (keeping : Keeping once p result fs') : Ensuring fs p above result fs'

section ensuring

variable (hn : fs.NoLinks) (hg : fs.Grounded) (hr : fs.refusals = [])
include hn hg hr

/-- What the files are like once the directories above have been made. -/
theorem grows_of_run_ensureFirst {above : List Path} {result : Except Error Unit} {once : FileSystem}
    (h : ExceptT.run (ensureFirst above) fs = (result, once)) :
    Grows fs once ∧ once.NoLinks ∧ once.Grounded ∧ once.refusals = [] := by
  have hfiles : filesAfter (ensureFirst above) fs = once := congrArg Prod.snd h
  have hgrows := (ensureFirst_cases hg above).1
  rw [hfiles] at hgrows
  exact ⟨hgrows, hgrows.noLinks hn, hgrows.grounded hg, refusals_of_grows hgrows hr⟩

/-- Each of these ways is one in which it ends. -/
theorem Ensuring.run (hp : p.text ≠ "") {above : List Path} {result : Except Error Unit}
    (h : Ensuring fs p above result fs') :
    ExceptT.run (ensureFirst (p :: above)) fs = (result, fs') := by
  have hcons {x : Except Error Unit} {made : FileSystem} (hk : Keeping fs p x made) :
      answer (makeOrKeep p) fs = x ∧ filesAfter (makeOrKeep p) fs = made :=
    Prod.ext_iff.1 (hk.run hn hg hr)
  rw [run_ensureFirst_cons hp]
  cases h with
  | first keeping present =>
    obtain ⟨ha, hf⟩ := hcons keeping
    rw [ha, hf]
    cases result with
    | ok u => rfl
    | error x =>
      dsimp only
      rw [if_neg fun e => present (congrArg _ e)]
  | hindered missing run =>
    obtain ⟨ha, hf⟩ := hcons (.astray missing)
    obtain ⟨habove, hfiles⟩ := Prod.ext_iff.1 run
    rw [ha, hf]
    dsimp only [answer, filesAfter] at habove hfiles ⊢
    rw [if_pos rfl, habove, hfiles]
  | afterwards missing run keeping =>
    obtain ⟨ha, hf⟩ := hcons (.astray missing)
    obtain ⟨habove, hfiles⟩ := Prod.ext_iff.1 run
    obtain ⟨-, hnOnce, hgOnce, hrOnce⟩ := grows_of_run_ensureFirst hn hg hr run
    rw [ha, hf]
    dsimp only [answer, filesAfter] at habove hfiles ⊢
    rw [if_pos rfl, habove, hfiles]
    exact keeping.run hnOnce hgOnce hrOnce

/-- These are the ways in which it ends. -/
theorem ensuring_ensureFirst (hp : p.text ≠ "") (above : List Path) :
    Ensuring fs p above (answer (ensureFirst (p :: above)) fs)
      (filesAfter (ensureFirst (p :: above)) fs) := by
  have hensuring : ∃ result fs', Ensuring fs p above result fs' := by
    have hkeeping := keeping_makeOrKeep hn hg hr p
    by_cases hx : answer (makeOrKeep p) fs = .error .notFound
    · rw [hx] at hkeeping
      obtain ⟨missing, -⟩ := hkeeping.missing
      cases ha : answer (ensureFirst above) fs with
      | error x => exact ⟨_, _, .hindered missing (Prod.ext ha rfl)⟩
      | ok u =>
        have hrun : ExceptT.run (ensureFirst above) fs = (.ok u, _) := Prod.ext ha rfl
        obtain ⟨-, hnOnce, hgOnce, hrOnce⟩ := grows_of_run_ensureFirst hn hg hr hrun
        exact ⟨_, _, .afterwards missing hrun (keeping_makeOrKeep hnOnce hgOnce hrOnce p)⟩
    · exact ⟨_, _, .first hkeeping hx⟩
  obtain ⟨result, fs', h⟩ := hensuring
  have hrun := h.run hn hg hr hp
  rw [show answer (ensureFirst (p :: above)) fs = result from congrArg Prod.fst hrun,
    show filesAfter (ensureFirst (p :: above)) fs = fs' from congrArg Prod.snd hrun]
  exact h

end ensuring

theorem text_ne_of_isAbsolute (hp : p.isAbsolute = true) : p.text ≠ "" := by
  intro he
  rw [Path.isAbsolute, he] at hp
  simp at hp

theorem isAbsolute_parent (hp : p.isAbsolute = true) (hq : p.parent? = some q) :
    q.isAbsolute = true := by
  obtain ⟨-, -, -, -, -, -, -, -, habsolute, -⟩ := Path.exists_segments_of_parent hp hq
  exact habsolute

/-- A path on which something is missing is well-formed. -/
theorem checkPath_of_missing (hp : p.isAbsolute = true) (h : fs.ending p = .error .notFound) :
    checkPath p = .ok () := by
  obtain hc | ⟨-, hc, -⟩ := ending_error_cases h
  · unfold checkPath at hc
    rw [if_neg (text_ne_of_isAbsolute hp)] at hc
    split at hc
    · cases hc
    · split at hc <;> cases hc
  · exact hc

theorem length_pieces_le (sep : Char) (cs : List Char) :
    (Text.pieces sep cs).length ≤ cs.length + 1 := by
  induction cs with
  | nil => simp [Text.pieces]
  | cons c cs ih =>
    rw [Text.pieces]
    split
    · simpa using ih
    · split
      · simp
      · next first rest h =>
        rw [h] at ih
        simp only [List.length_cons] at ih ⊢
        omega

/-- There are not more paths above a path than its text has characters. -/
theorem depth_le (hp : p.isAbsolute = true) : depth p ≤ p.text.length := by
  obtain ⟨s, rest, hsegments⟩ := List.exists_cons_of_ne_nil p.segments_ne_nil
  obtain ⟨rfl, -⟩ := (Path.isAbsolute_iff_segments hsegments).1 hp
  have hlength : p.segments.length ≤ p.text.length + 1 := by
    rw [Path.segments, Text.split, List.length_map, ← String.length_toList]
    exact length_pieces_le '/' p.text.toList
  have hblank : saysNothing "" = true := by decide
  have hfilter : (rest.filter fun s => saysNothing s = false).length ≤ rest.length :=
    List.length_filter_le _ _
  rw [hsegments, List.length_cons] at hlength
  rw [depth, hsegments, List.filter_cons]
  simp only [hblank, Bool.true_eq_false, decide_false, Bool.false_eq_true, if_false]
  omega

/-- Making a directory with those above it comes to what making or keeping it comes to
afterwards. -/
theorem keeping_ensureFirst (fuel : Nat) (ht : fs.IsTree) (hn : fs.NoLinks) (hr : fs.refusals = [])
    (hp : p.isAbsolute = true) (hdown : fs.Descends p) (hfuel : depth p < fuel) :
    Keeping (filesAfter (ensureFirst (ancestors fuel p)) fs) p
      (answer (ensureFirst (ancestors fuel p)) fs)
      (filesAfter (ensureFirst (ancestors fuel p)) fs) := by
  induction fuel generalizing p with
  | zero => omega
  | succ fuel ih =>
    have hg := ht.toGrounded
    rw [ancestors]
    have hensuring := ensuring_ensureFirst hn hg hr (text_ne_of_isAbsolute hp)
      ((p.parent?.map (ancestors fuel)).getD [])
    generalize answer (ensureFirst _) fs = result at hensuring
    generalize filesAfter (ensureFirst _) fs = fs' at hensuring
    cases hensuring with
    | first keeping => exact keeping.stable hn hg hr
    | afterwards missing run keeping =>
      obtain ⟨-, hnOnce, hgOnce, hrOnce⟩ := grows_of_run_ensureFirst hn hg hr run
      exact keeping.stable hnOnce hgOnce hrOnce
    | hindered missing run =>
      obtain ⟨ha, hf⟩ := Prod.ext_iff.1 run
      obtain ⟨hgrows, hnAbove, -⟩ := grows_of_run_ensureFirst hn hg hr run
      cases hq : p.parent? with
      | none =>
        rw [hq] at ha
        cases ha
      | some q =>
        rw [hq] at ha hf
        have hdepth := depth_parent hp hq
        have hdownq := hdown.parent hp hq
        have hc := checkPath_of_missing hp missing
        have habove := ih (isAbsolute_parent hp hq) hdownq (by omega)
        rw [show answer (ensureFirst (ancestors fuel q)) fs = _ from ha,
          show filesAfter (ensureFirst (ancestors fuel q)) fs = _ from hf] at habove
        cases habove with
        | astray ends => exact .astray (ending_error_of_parent hp hq hc hnAbove ends)
        | taken ends named entry =>
          -- A file above would have been met at first.
          obtain ⟨ends, entry⟩ := hdownq.ending_of_file ht hn hgrows ends named entry
          rw [ending_of_parent_file hp hq hc ends named entry] at missing
          cases missing

theorem keeping_ensureDirectory (ht : fs.IsTree) (hn : fs.NoLinks) (hr : fs.refusals = [])
    (hp : p.isAbsolute = true) (hdown : fs.Descends p) :
    Keeping (filesAfter (ensureDirectory p) fs) p (answer (ensureDirectory p) fs)
      (filesAfter (ensureDirectory p) fs) :=
  keeping_ensureFirst _ ht hn hr hp hdown (Nat.lt_succ_of_le (depth_le hp))

/-- The path above a path does not end in a dot. -/
theorem getLast_core_parent (hp : p.isAbsolute = true) (hq : p.parent? = some q) :
    (core q).getLast? ≠ some "." := by
  obtain ⟨-, -, -, -, -, -, -, ⟨-, rfl⟩ | ⟨init, name, rfl, hname, hsegments⟩⟩ :=
    exists_front_of_parent hp hq
  · decide
  · have hne : name ≠ "" := by
      rintro rfl
      simp [saysNothing] at hname
    have hconcat : q.segments = ("" :: init) ++ [name] := hsegments
    rw [core_of_concat hconcat hne, List.getLast?_concat]
    rintro he
    obtain rfl := Option.some.inj he
    simp [saysNothing] at hname

/-- An absolute path on which something is missing has a path above it. -/
theorem exists_parent_of_missing (hn : fs.NoLinks) (hp : p.isAbsolute = true)
    (h : fs.ending p = .error .notFound) : ∃ q, p.parent? = some q := by
  cases hq : p.parent? with
  | some q => exact ⟨q, rfl⟩
  | none =>
    obtain ⟨s, rest, hsegments⟩ := List.exists_cons_of_ne_nil p.segments_ne_nil
    obtain ⟨rfl, -⟩ := (Path.isAbsolute_iff_segments hsegments).1 hp
    have htrim : Path.trimEnd rest = [] := by
      simp only [Path.parent?, hsegments] at hq
      split at hq
      · assumption
      · split at hq <;> cases hq
    obtain ⟨blanks, hrest, hblanks⟩ := Path.exists_blanks rest
    rw [htrim, List.nil_append] at hrest
    have hpasses : fs.PassesTo p (startOf p.text fs.workingDirectory) := by
      refine ⟨greatestLinks, ?_⟩
      rw [hsegments]
      exact .nothing (by decide) (passes_saysNothing _ _ (hrest ▸ hblanks))
    obtain ⟨e, he, -⟩ := ending_of_passesTo hn (checkPath_of_missing hp h) hpasses
    rw [h] at he
    cases he

/-- Nothing is missing where a directory cannot be made, unless its path ends in a dot. -/
theorem ensureFirst_ne_notFound (fuel : Nat) (ht : fs.IsTree) (hn : fs.NoLinks)
    (hr : fs.refusals = []) (hp : p.isAbsolute = true) (hdown : fs.Descends p)
    (hfuel : depth p < fuel) (hdot : (core p).getLast? ≠ some ".") :
    answer (ensureFirst (ancestors fuel p)) fs ≠ .error .notFound := by
  induction fuel generalizing p with
  | zero => omega
  | succ fuel ih =>
    have hg := ht.toGrounded
    rw [ancestors]
    have hensuring := ensuring_ensureFirst hn hg hr (text_ne_of_isAbsolute hp)
      ((p.parent?.map (ancestors fuel)).getD [])
    generalize answer (ensureFirst _) fs = result at hensuring
    generalize filesAfter (ensureFirst _) fs = fs' at hensuring
    cases hensuring with
    | first keeping present => exact present
    | hindered missing run =>
      obtain ⟨q, hq⟩ := exists_parent_of_missing hn hp missing
      have hdepth := depth_parent hp hq
      rw [hq] at run
      have habove := ih (isAbsolute_parent hp hq) (hdown.parent hp hq) (by omega)
        (getLast_core_parent hp hq)
      rwa [show answer (ensureFirst (ancestors fuel q)) fs = _ from congrArg Prod.fst run] at habove
    | afterwards missing run keeping =>
      obtain ⟨q, hq⟩ := exists_parent_of_missing hn hp missing
      have hdepth := depth_parent hp hq
      rw [hq] at run
      obtain ⟨ha, hf⟩ := Prod.ext_iff.1 run
      have hhead : q ∈ (ancestors fuel q).head? := by
        obtain ⟨k, rfl⟩ := Nat.exists_eq_succ_of_ne_zero (show fuel ≠ 0 by omega)
        rfl
      obtain ⟨l, hpasses⟩ := (ensureFirst_cases hg (ancestors fuel q)).2 ha q hhead
      rw [show filesAfter (ensureFirst (ancestors fuel q)) fs = _ from hf] at hpasses
      rintro rfl
      exact ending_ne_notFound hp hq (checkPath_of_missing hp missing) hpasses hdot
        keeping.missing.1

theorem ensureDirectory_ne_notFound (ht : fs.IsTree) (hn : fs.NoLinks) (hr : fs.refusals = [])
    (hp : p.isAbsolute = true) (hdown : fs.Descends p) (hdot : (core p).getLast? ≠ some ".") :
    answer (ensureDirectory p) fs ≠ .error .notFound :=
  ensureFirst_ne_notFound _ ht hn hr hp hdown (Nat.lt_succ_of_le (depth_le hp)) hdot

/-! ### Making a directory again -/

/-- Files with the same entries end a path in the same way. -/
theorem Keeping.congr {result : Except Error Unit} (h : Keeping fs p result fs)
    (hF : Alike (fun _ => True) fs F) (hg : F.Grounded)
    (here : F.workingDirectory = fs.workingDirectory) (hp : p.isAbsolute = true) :
    Keeping F p result F := by
  have hlater : Later fs F :=
    ⟨⟨here, fun l hl => (hF.entries l trivial).symm.trans hl⟩,
      fun l content hl => ⟨content, (hF.entries l trivial).symm.trans hl⟩⟩
  by_cases hx : result = .error .notFound
  · subst hx
    cases h with
    | astray ends =>
      refine .astray ?_
      rw [← hF.ending ⟨hp, fun _ _ => trivial⟩]
      exact ends
  · exact h.again hF.noLinks hlater hg hx

section again

variable (hF : F.NoLinks) (hgF : F.Grounded) (hrF : F.refusals = []) (hp : p.isAbsolute = true)
  (ht : fs.IsTree) (hn : fs.NoLinks) (hr : fs.refusals = []) (hdown : fs.Descends p)
include hF hgF hrF hp ht hn hr hdown

/-- Where nothing is missing, making a directory at any later time comes to the same, and it
changes nothing. -/
theorem ensureDirectory_again (hl : Later (filesAfter (ensureDirectory p) fs) F)
    (hx : answer (ensureDirectory p) fs ≠ .error .notFound) :
    ExceptT.run (ensureDirectory p) F = (answer (ensureDirectory p) fs, F) := by
  have hagain := (keeping_ensureDirectory ht hn hr hp hdown).again
    ((grows_ensureDirectory ht.toGrounded p).noLinks hn) hl hgF hx
  exact Ensuring.run hF hgF hrF (text_ne_of_isAbsolute hp) (.first hagain hx)

end again

/-- Making a directory with those above it once more, where the entries are those that the first
time has left, comes to the same, and it changes nothing. -/
theorem ensureFirst_twice (fuel : Nat) (ht : fs.IsTree) (hn : fs.NoLinks) (hr : fs.refusals = [])
    (hp : p.isAbsolute = true) (hdown : fs.Descends p) (hfuel : depth p < fuel)
    (hF : Alike (fun _ => True) (filesAfter (ensureFirst (ancestors fuel p)) fs) F)
    (hg : F.Grounded) (hrF : F.refusals = []) (here : F.workingDirectory = fs.workingDirectory) :
    ExceptT.run (ensureFirst (ancestors fuel p)) F =
      (answer (ensureFirst (ancestors fuel p)) fs, F) := by
  induction fuel generalizing p with
  | zero => omega
  | succ fuel ih =>
    have hgrows := (ensureFirst_cases ht.toGrounded (ancestors (fuel + 1) p)).1
    have hagain := (keeping_ensureFirst (fuel + 1) ht hn hr hp hdown hfuel).congr hF hg
      (here.trans hgrows.workingDirectory.symm) hp
    have habove {result : Except Error Unit} {once : FileSystem}
        (hrun : ExceptT.run (ensureFirst ((p.parent?.map (ancestors fuel)).getD [])) fs =
          (result, once)) (hF : Alike (fun _ => True) once F) :
        ExceptT.run (ensureFirst ((p.parent?.map (ancestors fuel)).getD [])) F = (result, F) := by
      obtain ⟨ha, hf⟩ := Prod.ext_iff.1 hrun
      cases hq : p.parent? with
      | none =>
        rw [hq] at ha
        exact Prod.ext ha rfl
      | some q =>
        have hdepth := depth_parent hp hq
        rw [hq] at ha hf
        have hfiles : filesAfter (ensureFirst (ancestors fuel q)) fs = once := hf
        exact (ih (isAbsolute_parent hp hq) (hdown.parent hp hq) (by omega) (hfiles ▸ hF)).trans
          (Prod.ext ha rfl)
    rw [ancestors] at hF hagain ⊢
    have hensuring := ensuring_ensureFirst hn ht.toGrounded hr (text_ne_of_isAbsolute hp)
      ((p.parent?.map (ancestors fuel)).getD [])
    refine Ensuring.run hF.noLinks' hg hrF (text_ne_of_isAbsolute hp) ?_
    generalize answer (ensureFirst _) fs = result at hensuring hagain ⊢
    generalize filesAfter (ensureFirst _) fs = fs' at hensuring hF
    cases hensuring with
    | first keeping present => exact .first hagain present
    | @hindered x _ missing run =>
      by_cases hx : x = .notFound
      · subst hx
        exact .hindered hagain.missing.1 (habove run hF)
      · exact .first hagain fun e => hx (Except.error.inj e)
    | afterwards missing run keeping =>
      by_cases hx : result = .error .notFound
      · subst hx
        obtain ⟨-, rfl⟩ := keeping.missing
        exact .afterwards hagain.missing.1 (habove run hF) hagain
      · exact .first hagain hx

theorem ensureDirectory_twice (ht : fs.IsTree) (hn : fs.NoLinks) (hr : fs.refusals = [])
    (hp : p.isAbsolute = true) (hdown : fs.Descends p)
    (hF : Alike (fun _ => True) (filesAfter (ensureDirectory p) fs) F) (hg : F.Grounded)
    (hrF : F.refusals = []) (here : F.workingDirectory = fs.workingDirectory) :
    ExceptT.run (ensureDirectory p) F = (answer (ensureDirectory p) fs, F) :=
  ensureFirst_twice _ ht hn hr hp hdown (Nat.lt_succ_of_le (depth_le hp)) hF hg hrF here

/-- A directory that is passed is kept. -/
theorem ensureDirectory_of_passesTo (hn : fs.NoLinks) (hg : fs.Grounded) (hr : fs.refusals = [])
    (hp : p.isAbsolute = true) (hc : checkPath p = .ok ()) (h : fs.PassesTo p l) :
    ExceptT.run (ensureDirectory p) fs = (.ok (), fs) :=
  Ensuring.run hn hg hr (text_ne_of_isAbsolute hp) (.first (.kept hc h) (by simp))

/-! ### Locations on the way -/

section frame

variable {d : Location → Prop} (hn : fs.NoLinks) (hl : ¬ d l)
include hn hl

/-- A directory is made at a location that its path leads to. -/
theorem entry_makeDirectory (hp : StaysIn d p) :
    entry? (filesAfter (makeDirectory p) fs) l = fs.entry? l := by
  simp only [makeDirectory, filesAfter_bind, answer_ask, filesAfter_ask]
  cases he : fs.ending p with
  | error x => rfl
  | ok e =>
    dsimp only
    cases hname : e.name with
    | none => rfl
    | some name =>
      have hne : l ≠ e.directory ++ [name] := by
        obtain ⟨_, _, _, _, _, _, _, _, hlanding⟩ := ending_name hn he hname
        rw [hlanding, hp.landing_eq]
        exact fun h => hl (h ▸ hp.landing_mem)
      simp only [filesAfter_bind, answer_get, filesAfter_get]
      split
      · rfl
      · simp only [filesAfter_bind, filesAfter_permit]
        cases answer permit fs with
        | error x => rfl
        | ok u => exact entry_place_of_ne _ hne _

theorem entry_makeOrKeep (hp : StaysIn d p) :
    entry? (filesAfter (makeOrKeep p) fs) l = fs.entry? l := by
  have hmade := entry_makeDirectory hn hl hp
  rw [makeOrKeep, filesAfter_tryCatch]
  cases answer (makeDirectory p) fs with
  | ok u => exact hmade
  | error x =>
    simp only [filesAfter_bind, answer_get, filesAfter_get]
    split <;> exact hmade

theorem entry_ensureFirst {ps : List Path} (hps : ∀ p ∈ ps, StaysIn d p) :
    entry? (filesAfter (ensureFirst ps) fs) l = fs.entry? l := by
  induction ps generalizing fs with
  | nil => rfl
  | cons p above ih =>
    have hp := hps p List.mem_cons_self
    have hkept := entry_makeOrKeep hn hl hp
    have hnoLinks {x : Action Unit} (hx : Reaches (fun _ => False) fs (filesAfter x fs)) :
        (filesAfter x fs).NoLinks := hx.noLinks hn
    rw [ensureFirst]
    split
    · rfl
    · rw [filesAfter_tryCatch]
      cases answer (makeOrKeep p) fs with
      | ok u => exact hkept
      | error x =>
        dsimp only
        split
        · have hmade := hnoLinks (reaches_makeOrKeep p)
          have habove := ih hmade fun q hq => hps q (List.mem_cons_of_mem _ hq)
          rw [filesAfter_bind]
          cases answer (ensureFirst above) (filesAfter (makeOrKeep p) fs) with
          | error y => exact habove.trans hkept
          | ok u =>
            have hlast : Reaches (fun _ => False) (filesAfter (makeOrKeep p) fs) _ :=
              reaches_ensureFirst above
            exact (entry_makeOrKeep (hlast.noLinks hmade) hl hp).trans (habove.trans hkept)
        · exact hkept

/-- Directories are made at locations that the path leads to on its way. -/
theorem entry_ensureDirectory (hp : StaysIn d p) :
    entry? (filesAfter (ensureDirectory p) fs) l = fs.entry? l :=
  entry_ensureFirst hn hl (staysIn_ancestors hp _)

end frame

end FileRoutes.FileSystem
