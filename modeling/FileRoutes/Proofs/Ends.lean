import FileRoutes.Proofs.Agreement

/-!
# Ends of paths

In a tree without links, a path has an end where the directory of its last name can be passed.
This stays so at any later time, when directories and files are still what they were; and where
there is no end though nothing is missing, there is none later.

## The model

* `Later` — files at a later time, when directories and files are still what they were.

## What is proved

* `ending_error_cases`, `ending_ok_cases` — what a path without an end and one with an end is.
* `ending_of_passesTo` — a path that is passed ends in a directory.
* `Later.ending_ok`, `Later.ending_error` — a path ends at a later time as it did.
* `ending_error_of_parent`, `ending_ne_notFound` — what the end of the path above tells.
* `Descends.ending_of_file` — a path that descends has an end where a file is.
-/

namespace FileRoutes.FileSystem

open FileRoutes.Path (GoesDown follow landing)
open FileSystem.Action

variable {fs fs' F : FileSystem} {p q : Path} {l : Location} {ps qs : List String}

/-! ### Later files -/

/-- Files at a later time: every directory is still one, and so is every file, though it may hold
something else. -/
structure Later (fs fs' : FileSystem) : Prop extends KeepsDirectories fs fs' where
  /-- Where a file was there is one. -/
  files : ∀ l content, fs.entry? l = some (.file content) →
    ∃ content', fs'.entry? l = some (.file content')

namespace Later

theorem refl (fs : FileSystem) : Later fs fs :=
  ⟨⟨rfl, fun _ h => h⟩, fun _ content h => ⟨content, h⟩⟩

theorem trans (h : Later fs fs') (h' : Later fs' F) : Later fs F := by
  refine ⟨⟨h'.here.trans h.here, fun l hl => h'.directories l (h.directories l hl)⟩,
    fun l content hl => ?_⟩
  obtain ⟨content', hl'⟩ := h.files l content hl
  exact h'.files l content' hl'

theorem of_grows (h : Grows fs fs') : Later fs fs' :=
  ⟨⟨h.workingDirectory, fun _ => h.entry_kept⟩, fun _ content hl => ⟨content, h.entry_kept hl⟩⟩

theorem keepsWays (h : Later fs fs') (hn : fs.NoLinks) : KeepsWays fs fs' :=
  ⟨h.toKeepsDirectories, fun l target hl => absurd hl (hn l target)⟩

/-- Pieces that cannot be followed, though nothing is missing, cannot be followed later. -/
theorem walk_error (h : Later fs fs') (hn : fs.NoLinks) {last : Bool} {n : Nat} {x : Error}
    (hw : fs.walk last n l ps = .error x) (hx : x ≠ .notFound) :
    fs'.walk last n l ps = .error x := by
  induction ps generalizing l with
  | nil =>
    rw [walk_nil] at hw
    cases hw
  | cons piece rest ih =>
    obtain hs | rfl | ⟨down, long⟩ | ⟨down, short⟩ := step_cases piece
    · rw [walk_nothing hs] at hw ⊢
      exact ih hw
    · rw [walk_up] at hw ⊢
      exact ih hw
    · rw [walk_of_long down long] at hw ⊢
      exact hw
    · cases entry : fs.entry? (l ++ [piece]) with
      | none =>
        rw [walk_of_none down short entry] at hw
        split at hw
        · cases hw
        · exact absurd (Except.error.inj hw).symm hx
      | some e =>
        cases e with
        | directory =>
          rw [walk_of_directory down short entry] at hw
          rw [walk_of_directory down short (h.directories _ entry)]
          exact ih hw
        | file content =>
          obtain ⟨content', entry'⟩ := h.files _ _ entry
          rw [walk_of_file down short entry] at hw
          rw [walk_of_file down short entry']
          exact hw
        | link target => exact absurd entry (hn _ target)

end Later

/-! ### The directory of the last name -/

/-- Pieces that cannot be followed to a directory cannot be followed any further. -/
theorem walk_error_append (hn : fs.NoLinks) {last : Bool} {n : Nat} {x : Error} (hq : qs ≠ [])
    (hw : fs.walk true n l (ps ++ [""]) = .error x) : fs.walk last n l (ps ++ qs) = .error x := by
  induction ps generalizing l with
  | nil =>
    rw [List.nil_append, walk_slash] at hw
    cases hw
  | cons piece rest ih =>
    have hslash : rest ++ [""] ≠ [] := by simp
    have hmore : rest ++ qs ≠ [] := by simp [hq]
    rw [List.cons_append] at hw ⊢
    obtain hs | rfl | ⟨down, long⟩ | ⟨down, short⟩ := step_cases piece
    · rw [walk_nothing hs] at hw ⊢
      exact ih hw
    · rw [walk_up] at hw ⊢
      exact ih hw
    · rw [walk_of_long down long] at hw ⊢
      exact hw
    · cases entry : fs.entry? (l ++ [piece]) with
      | none =>
        rw [walk_of_none down short entry, if_neg hslash] at hw
        rw [walk_of_none down short entry, if_neg hmore]
        exact hw
      | some e =>
        cases e with
        | directory =>
          rw [walk_of_directory down short entry] at hw ⊢
          exact ih hw
        | file content =>
          rw [walk_of_file down short entry, if_neg hslash] at hw
          rw [walk_of_file down short entry, if_neg hmore]
          exact hw
        | link target => exact absurd entry (hn _ target)

/-- Pieces with nothing behind them lead to the directory that they pass. -/
theorem exists_passes_of_walk {n : Nat} {place : Place}
    (hw : fs.walk true n l (ps ++ [""]) = .ok place) :
    ∃ m directory, fs.Passes n l ps m directory ∧ place = .found directory := by
  obtain ⟨m, directory, hpasses, hlast⟩ := exists_passes (by simp) hw
  rw [walk_slash] at hlast
  exact ⟨m, directory, hpasses, (Except.ok.inj hlast).symm⟩

theorem Passes.walk_nothing {n m : Nat} {directory : Location}
    (h : fs.Passes n l ps m directory) :
    fs.walk true n l (ps ++ [""]) = .ok (.found directory) := by
  rw [h.walk_append (by simp), walk_slash]

/-- What the end of a path is, where the directory of the last name or dots is passed. -/
theorem ending_of_passes (hc : checkPath p = .ok ()) {last : String}
    (hl : (core p).getLast? = some last) {m : Nat} {directory : Location}
    (h : fs.Passes greatestLinks (startOf p.text fs.workingDirectory) (core p).dropLast m
      directory) :
    fs.ending p =
      if last = "." ∨ last = ".." then
        .ok ⟨directory, none, decide ((core p).length < p.segments.length)⟩
      else if greatestName < last.utf8ByteSize then .error .nameTooLong
      else .ok ⟨directory, some last, decide ((core p).length < p.segments.length)⟩ :=
  ending_of_found hc hl h.walk_nothing

/-- A path without an end is not well-formed, or the directory of its last name cannot be
followed, or that name is too long. -/
theorem ending_error_cases {x : Error} (h : fs.ending p = .error x) :
    checkPath p = .error x ∨ ∃ last, checkPath p = .ok () ∧ (core p).getLast? = some last ∧
      (fs.walk true greatestLinks (startOf p.text fs.workingDirectory) ((core p).dropLast ++ [""]) =
          .error x ∨
        (x = .nameTooLong ∧ ¬ (last = "." ∨ last = "..") ∧ greatestName < last.utf8ByteSize ∧
          ∃ m directory, fs.Passes greatestLinks (startOf p.text fs.workingDirectory)
            (core p).dropLast m directory)) := by
  cases hc : checkPath p with
  | error y =>
    rw [ending_of_checkPath hc] at h
    exact .inl (congrArg _ (Except.error.inj h))
  | ok u =>
    refine .inr ?_
    cases hl : (core p).getLast? with
    | none =>
      rw [ending_of_none hc hl] at h
      cases h
    | some last =>
      refine ⟨last, rfl, rfl, ?_⟩
      cases hw : fs.walk true greatestLinks (startOf p.text fs.workingDirectory)
          ((core p).dropLast ++ [""]) with
      | error y =>
        rw [ending_of_walk hc hl hw] at h
        exact .inl (congrArg _ (Except.error.inj h))
      | ok place =>
        obtain ⟨m, directory, hpasses, rfl⟩ := exists_passes_of_walk hw
        rw [ending_of_passes hc hl hpasses] at h
        split at h
        · cases h
        · next hdots =>
          split at h
          · next hlong =>
            exact .inr ⟨(Except.error.inj h).symm, hdots, hlong, m, directory, hpasses⟩
          · cases h

/-- A path with an end has a directory at it that is passed. -/
theorem ending_ok_cases {e : Ending} (h : fs.ending p = .ok e) : checkPath p = .ok () ∧
    (((core p).getLast? = none ∧ e.name = none) ∨
      ∃ last m, (core p).getLast? = some last ∧ fs.Passes greatestLinks
        (startOf p.text fs.workingDirectory) (core p).dropLast m e.directory ∧
        ((e.name = none ∧ (last = "." ∨ last = "..")) ∨
          (e.name = some last ∧ ¬ (last = "." ∨ last = "..") ∧
            ¬ greatestName < last.utf8ByteSize))) := by
  cases hc : checkPath p with
  | error x =>
    rw [ending_of_checkPath hc] at h
    cases h
  | ok u =>
    refine ⟨rfl, ?_⟩
    cases hl : (core p).getLast? with
    | none =>
      rw [ending_of_none hc hl] at h
      obtain rfl := Except.ok.inj h
      exact .inl ⟨rfl, rfl⟩
    | some last =>
      refine .inr ?_
      cases hw : fs.walk true greatestLinks (startOf p.text fs.workingDirectory)
          ((core p).dropLast ++ [""]) with
      | error x =>
        rw [ending_of_walk hc hl hw] at h
        cases h
      | ok place =>
        obtain ⟨m, directory, hpasses, rfl⟩ := exists_passes_of_walk hw
        rw [ending_of_passes hc hl hpasses] at h
        split at h
        · next hdots =>
          obtain rfl := Except.ok.inj h
          exact ⟨last, m, rfl, hpasses, .inl ⟨rfl, hdots⟩⟩
        · next hdots =>
          split at h
          · cases h
          · next hshort =>
            obtain rfl := Except.ok.inj h
            exact ⟨last, m, rfl, hpasses, .inr ⟨rfl, hdots, hshort⟩⟩

/-- An end that is no name is passed. -/
theorem passesTo_of_ending_none {e : Ending} (h : fs.ending p = .ok e) (hn : e.name = none) :
    ∃ l, fs.PassesTo p l := by
  obtain ⟨blanks, hsegments, hblanks⟩ := exists_segments_core p
  have hnothing : ∀ b ∈ blanks, saysNothing b = true := fun b hb => by
    rw [hblanks b hb]
    decide
  obtain ⟨-, ⟨hnone, -⟩ | ⟨last, m, hl, hpasses, ⟨-, hdots⟩ | ⟨hsome, -⟩⟩⟩ := ending_ok_cases h
  · rw [List.getLast?_eq_none_iff.1 hnone, List.nil_append] at hsegments
    refine ⟨startOf p.text fs.workingDirectory, greatestLinks, ?_⟩
    rw [hsegments]
    exact passes_saysNothing _ _ hnothing
  · obtain ⟨init, hinit⟩ := List.getLast?_eq_some_iff.1 hl
    rw [hinit, List.dropLast_concat] at hpasses
    rw [hinit] at hsegments
    unfold PassesTo
    rw [hsegments]
    simp only [passes_append_saysNothing_iff hnothing]
    obtain rfl | rfl := hdots
    · exact ⟨_, m, hpasses.append (.nothing (by decide) .here)⟩
    · exact ⟨_, m, hpasses.append (.up .here)⟩
  · rw [hn] at hsome
    cases hsome

/-- An end that is a directory is passed. -/
theorem passesTo_of_ending_directory (hg : fs.Grounded) {e : Ending} {name : String}
    (h : fs.ending p = .ok e) (hn : e.name = some name)
    (hd : fs.entry? (e.directory ++ [name]) = some .directory) :
    fs.PassesTo p (e.directory ++ [name]) := by
  obtain ⟨hname, -, init, blanks, m, hsegments, hblanks, -, hpasses⟩ := ending_parts hg h hn
  refine ⟨m, ?_⟩
  rw [hsegments]
  refine hpasses.append (.directory hname.down hname.short hd ?_)
  exact passes_saysNothing _ _ fun b hb => by
    rw [hblanks b hb]
    decide

/-- A path that is passed ends in a directory. -/
theorem ending_of_passesTo (hn : fs.NoLinks) (hc : checkPath p = .ok ()) (h : fs.PassesTo p l) :
    ∃ e, fs.ending p = .ok e ∧ ∀ name, e.name = some name →
      fs.entry? (e.directory ++ [name]) = some .directory := by
  obtain ⟨blanks, hsegments, hblanks⟩ := exists_segments_core p
  obtain ⟨m, hpasses⟩ := h
  cases hl : (core p).getLast? with
  | none => exact ⟨_, ending_of_none hc hl, fun name hname => by cases hname⟩
  | some last =>
    obtain ⟨init, hinit⟩ := List.getLast?_eq_some_iff.1 hl
    rw [hsegments, hinit, List.append_assoc] at hpasses
    obtain ⟨k, directory, hfirst, hrest⟩ := hpasses.split
    have hfront : fs.Passes greatestLinks (startOf p.text fs.workingDirectory) (core p).dropLast k
        directory := by
      rw [hinit, List.dropLast_concat]
      exact hfirst
    have hending := ending_of_passes hc hl hfront
    cases hrest with
    | nothing hs _ =>
      have hdot : last = "." := by
        simpa [saysNothing, ne_empty_of_getLast_core hl] using hs
      rw [if_pos (.inl hdot)] at hending
      exact ⟨_, hending, fun name hname => by cases hname⟩
    | up _ =>
      rw [if_pos (.inr rfl)] at hending
      exact ⟨_, hending, fun name hname => by cases hname⟩
    | directory down short entry _ =>
      have hdots : ¬ (last = "." ∨ last = "..") := by
        rintro (rfl | rfl)
        · exact absurd down.1 (by decide)
        · exact down.2 rfl
      rw [if_neg hdots, if_neg short] at hending
      refine ⟨_, hending, fun name hname => ?_⟩
      obtain rfl := Option.some.inj hname
      exact entry
    | link _ _ entry _ => exact absurd entry (hn _ _)

/-! ### Ends at a later time -/

namespace Later

variable (h : Later fs fs') (hn : fs.NoLinks)
include h hn

theorem ending_error {x : Error} (he : fs.ending p = .error x) (hx : x ≠ .notFound) :
    fs'.ending p = .error x := by
  obtain hc | ⟨last, hc, hl, hw | ⟨rfl, hdots, hlong, m, directory, hpasses⟩⟩ :=
    ending_error_cases he
  · exact ending_of_checkPath hc
  · have hlater := h.walk_error hn hw hx
    rw [← h.here] at hlater
    exact ending_of_walk hc hl hlater
  · have hlater := hpasses.kept (h.keepsWays hn)
    rw [← h.here] at hlater
    rw [ending_of_passes hc hl hlater, if_neg hdots, if_pos hlong]

theorem ending_ok {e : Ending} (he : fs.ending p = .ok e) : fs'.ending p = .ok e := by
  obtain ⟨hc, ⟨hl, -⟩ | ⟨last, m, hl, hpasses, -⟩⟩ := ending_ok_cases he
  · rw [ending_of_none hc hl, h.here, ← ending_of_none hc hl]
    exact he
  · have hlater := hpasses.kept (h.keepsWays hn)
    rw [← h.here] at hlater
    rw [ending_of_passes hc hl hlater, ← ending_of_passes hc hl hpasses]
    exact he

theorem passesTo (hp : fs.PassesTo p l) : fs'.PassesTo p l := hp.kept (h.keepsWays hn)

end Later

/-! ### The path above a path -/

/-- Empty pieces behind the last name or dots are left out. -/
theorem exists_core {init blanks : List String} {name : String}
    (h : p.segments = init ++ name :: blanks) (hname : saysNothing name = false)
    (hb : ∀ b ∈ blanks, saysNothing b = true) :
    core p = init ++ [name] ∨ ∃ dots, core p = (init ++ name :: dots) ++ ["."] := by
  have hne : name ≠ "" := by
    rintro rfl
    simp [saysNothing] at hname
  have hcore : core p =
      (init ++ [name]) ++ (blanks.reverse.dropWhile fun s => s = "").reverse := by
    have hreverse : (init ++ name :: blanks).reverse = blanks.reverse ++ name :: init.reverse := by
      simp
    rw [core, h, hreverse, List.dropWhile_append]
    split
    · next hempty =>
      rw [List.isEmpty_iff.1 hempty]
      simp [hne]
    · simp
  cases htail : (blanks.reverse.dropWhile fun s => s = "").reverse using List.reverseRecOn with
  | nil => exact .inl (by rw [hcore, htail, List.append_nil])
  | append_singleton dots last _ =>
    refine .inr ⟨dots, ?_⟩
    have hhead : (blanks.reverse.dropWhile fun s => s = "").head? = some last := by
      rw [← List.getLast?_reverse, htail, List.getLast?_concat]
    have hnot := List.head?_dropWhile_not (fun s : String => decide (s = "")) blanks.reverse
    rw [hhead] at hnot
    have hmem : last ∈ blanks := by
      have hdropped := (List.dropWhile_suffix fun s => decide (s = "")).subset
        (List.mem_of_head? hhead)
      exact List.mem_reverse.1 hdropped
    have hdot : last = "." := by
      have hnothing := hb last hmem
      simp only [decide_eq_false_iff_not] at hnot
      simpa [saysNothing, hnot] using hnothing
    rw [hcore, htail, hdot]
    simp

/-- What stands between the path above an absolute path and the last name or dots of the path. -/
theorem exists_front_of_parent (hp : p.isAbsolute = true) (hq : p.parent? = some q) :
    ∃ kept more last, (core p).dropLast = "" :: (kept ++ more) ∧ (core p).getLast? = some last ∧
      (last = "." ∨ ∀ s ∈ more, saysNothing s = true) ∧ q.isAbsolute = true ∧
      ((kept = [] ∧ q = ⟨"/"⟩) ∨ ∃ init name, kept = init ++ [name] ∧
        saysNothing name = false ∧ q.segments = "" :: kept) := by
  obtain ⟨kept, between, name, blanks, hsegments, hname, hbetween, hblanks, hrest⟩ :=
    Path.exists_segments_of_parent hp hq
  obtain hcore | ⟨dots, hcore⟩ := exists_core hsegments hname hblanks
  · refine ⟨kept, between, name, ?_, by rw [hcore, List.getLast?_concat], .inr hbetween, hrest⟩
    rw [hcore, List.dropLast_concat]
  · refine ⟨kept, between ++ name :: dots, ".", ?_, by rw [hcore, List.getLast?_concat], .inl rfl,
      hrest⟩
    rw [hcore, List.dropLast_concat, List.cons_append, List.append_assoc]

/-- How many pieces of a path say something. -/
def depth (p : Path) : Nat := (p.segments.filter fun s => saysNothing s = false).length

theorem depth_parent (hp : p.isAbsolute = true) (hq : p.parent? = some q) : depth q < depth p := by
  obtain ⟨kept, between, name, blanks, hsegments, hname, -, -, -, ⟨rfl, rfl⟩ |
    ⟨init, last, -, -, hkept⟩⟩ := Path.exists_segments_of_parent hp hq
  · have hroot : depth ⟨"/"⟩ = 0 := by decide
    have hdepth : name ∈ p.segments.filter fun s => saysNothing s = false := by
      rw [hsegments]
      simp [hname]
    rw [hroot]
    exact List.length_pos_of_mem hdepth
  · have hblank : saysNothing "" = true := by decide
    rw [depth, depth, hkept, hsegments]
    simp only [List.filter_append, List.filter_cons, List.cons_append, hblank, hname,
      List.length_append, List.length_cons, decide_true, decide_false, Bool.true_eq_false, if_true,
      Bool.false_eq_true, if_false]
    omega

theorem core_of_concat {init : List String} {name : String} (h : p.segments = init ++ [name])
    (hname : name ≠ "") : core p = init ++ [name] := by
  rw [core, h, List.reverse_append]
  simp [hname]

section parent

variable (hp : p.isAbsolute = true) (hq : p.parent? = some q) (hc : checkPath p = .ok ())
include hp hq hc

theorem checkPath_parent : checkPath q = .ok () := by
  obtain ⟨kept, more, last, hfront, -, -, habsolute, ⟨-, rfl⟩ | ⟨init, name, -, -, hsegments⟩⟩ :=
    exists_front_of_parent hp hq
  · decide
  obtain ⟨rest, hrest⟩ : q.segments <+: p.segments := by
    obtain ⟨blanks, hcore, -⟩ := exists_segments_core p
    rw [hsegments]
    refine List.IsPrefix.trans ?_ ((List.dropLast_prefix _).trans ⟨blanks, hcore.symm⟩)
    rw [hfront]
    exact List.cons_prefix_cons.2 ⟨rfl, List.prefix_append kept more⟩
  have hsize : q.text.utf8ByteSize ≤ p.text.utf8ByteSize := by
    have hle := Manifest.utf8ByteSize_ofNames_le q.segments rest
    rw [hrest] at hle
    have hqtext : (Path.ofNames q.segments).text = q.text := Text.join_split q.text
    have hptext : (Path.ofNames p.segments).text = p.text := Text.join_split p.text
    rwa [hqtext, hptext] at hle
  have hnul : '\x00' ∉ q.text.toList := by
    intro hm
    rw [← Text.join_split q.text, Text.toList_join] at hm
    obtain ⟨piece, hpiece, hmem⟩ := Text.exists_of_mem_joinWith hm (by decide)
    obtain ⟨s, hs, rfl⟩ := List.mem_map.1 hpiece
    have hin : s ∈ p.segments := hrest ▸ List.mem_append_left _ hs
    exact noNul_of_mem_segments hc hin hmem
  have hne : q.text ≠ "" := by
    intro he
    rw [Path.isAbsolute, he] at habsolute
    simp at habsolute
  unfold checkPath at hc ⊢
  rw [if_neg hnul, if_neg hne]
  split at hc
  · cases hc
  · split at hc
    · cases hc
    · split at hc
      · cases hc
      · rw [if_neg (by omega)]

variable (hn : fs.NoLinks)
include hn

/-- A path cannot be followed any further than the path above it. -/
theorem ending_error_of_parent {x : Error} (he : fs.ending q = .error x) :
    fs.ending p = .error x := by
  obtain ⟨kept, more, last, hfront, hlast, -, habsolute, ⟨-, rfl⟩ |
    ⟨init, name, rfl, hname, hsegments⟩⟩ := exists_front_of_parent hp hq
  · rw [ending_of_none (p := ⟨"/"⟩) (by decide) (by decide)] at he
    cases he
  have hne : name ≠ "" := by
    rintro rfl
    simp [saysNothing] at hname
  have hcore : core q = ("" :: init) ++ [name] := core_of_concat hsegments hne
  refine ending_of_walk hc hlast ?_
  rw [hfront, Path.startOf_of_isAbsolute hp]
  have hshape : "" :: (init ++ [name] ++ more) ++ [""] =
      ("" :: init) ++ name :: (more ++ [""]) := by
    simp
  rw [hshape]
  obtain hcheck | ⟨last', -, hl, hw | ⟨rfl, hdots, hlong, m, directory, hpasses⟩⟩ :=
    ending_error_cases he
  · rw [checkPath_parent hp hq hc] at hcheck
    cases hcheck
  · rw [hcore, List.dropLast_concat, Path.startOf_of_isAbsolute habsolute] at hw
    exact walk_error_append hn (by simp) hw
  · rw [hcore, List.getLast?_concat] at hl
    obtain rfl := Option.some.inj hl
    rw [hcore, List.dropLast_concat, Path.startOf_of_isAbsolute habsolute] at hpasses
    rw [hpasses.walk_append (by simp),
      walk_of_long ⟨by simp [hname], fun e => hdots (.inr e)⟩ hlong]

omit hn in
/-- A path cannot be followed any further than a file. -/
theorem ending_of_parent_file {e : Ending} {name : String} {content : Content}
    (he : fs.ending q = .ok e) (named : e.name = some name)
    (entry : fs.entry? (e.directory ++ [name]) = some (.file content)) :
    fs.ending p = .error .notDirectory := by
  obtain ⟨kept, more, last, hfront, hlast, -, habsolute, ⟨-, rfl⟩ |
    ⟨init, name', rfl, hname, hsegments⟩⟩ := exists_front_of_parent hp hq
  · rw [ending_of_none (p := ⟨"/"⟩) (by decide) (by decide)] at he
    obtain rfl := Except.ok.inj he
    cases named
  have hne : name' ≠ "" := by
    rintro rfl
    simp [saysNothing] at hname
  have hcore : core q = ("" :: init) ++ [name'] := core_of_concat hsegments hne
  obtain ⟨-, ⟨-, hnone⟩ | ⟨last', m, hl, hpasses, ⟨hnone, -⟩ | ⟨hsome, hdots, hshort⟩⟩⟩ :=
    ending_ok_cases he
  · rw [named] at hnone
    cases hnone
  · rw [named] at hnone
    cases hnone
  rw [hcore, List.getLast?_concat] at hl
  obtain rfl := Option.some.inj hl
  obtain rfl := Option.some.inj (named.symm.trans hsome)
  rw [hcore, List.dropLast_concat, Path.startOf_of_isAbsolute habsolute] at hpasses
  refine ending_of_walk hc hlast ?_
  have hshape : "" :: (init ++ [name] ++ more) ++ [""] =
      ("" :: init) ++ name :: (more ++ [""]) := by
    simp
  rw [hfront, Path.startOf_of_isAbsolute hp, hshape, hpasses.walk_append (by simp), walk,
    if_neg (by simp [hname]), if_neg fun e => hdots (.inr e), if_neg hshort]
  simp [entry]

omit hn in
/-- Nothing is missing where the path above is passed, unless the path ends in a dot. -/
theorem ending_ne_notFound (h : fs.PassesTo q l) (hdot : (core p).getLast? ≠ some ".") :
    fs.ending p ≠ .error .notFound := by
  obtain ⟨kept, more, last, hfront, hlast, hmore, habsolute, hkept⟩ := exists_front_of_parent hp hq
  have hnothing := hmore.resolve_left fun e => hdot (e ▸ hlast)
  obtain ⟨m, hpasses⟩ := h
  have hway : ∃ m', fs.Passes greatestLinks (startOf p.text fs.workingDirectory)
      (core p).dropLast m' l := by
    rw [Path.startOf_of_isAbsolute habsolute] at hpasses
    rw [Path.startOf_of_isAbsolute hp, hfront, ← List.cons_append]
    simp only [passes_append_saysNothing_iff hnothing]
    obtain ⟨rfl, rfl⟩ | ⟨init, name, -, -, hsegments⟩ := hkept
    · have hslash : Path.segments ⟨"/"⟩ = [""] ++ [""] := by decide
      rw [hslash] at hpasses
      exact ⟨m, (passes_append_saysNothing_iff (by decide)).1 hpasses⟩
    · rw [hsegments] at hpasses
      exact ⟨m, hpasses⟩
  obtain ⟨m', hway⟩ := hway
  rw [ending_of_passes hc hlast hway]
  split
  · simp
  · split <;> simp

end parent

/-! ### Paths that descend -/

section descends

variable (ht : fs.IsTree) (hn : fs.NoLinks) (hp : p.isAbsolute = true) (h : fs.Descends p)
include h

/-- In a tree without links, a first part of a path that descends can be followed to every
directory that it spells. -/
theorem Descends.passes_prefix (ht : fs.IsTree) (hn : fs.NoLinks) (hps : ps <+: p.segments)
    (hd : fs.entry? (follow (startOf p.text fs.workingDirectory) ps) = some .directory) :
    ∃ m, fs.Passes greatestLinks (startOf p.text fs.workingDirectory) ps m
      (follow (startOf p.text fs.workingDirectory) ps) := by
  obtain ⟨init, rest, m, l, hsegments, hup, hpasses⟩ := h
  rw [hsegments] at hps
  obtain hinit | ⟨more, rfl⟩ := List.prefix_or_prefix_of_prefix hps (List.prefix_append init rest)
  · obtain ⟨tail, rfl⟩ := hinit
    obtain ⟨k, x, hfirst, -⟩ := hpasses.split
    rw [← hfirst.location hn]
    exact ⟨k, hfirst⟩
  · have hmore : ".." ∉ more := fun hm =>
      hup (((List.prefix_append_right_inj init).1 hps).subset hm)
    rw [Path.follow_append, ← hpasses.location hn] at hd ⊢
    exact ⟨m, hpasses.append (ht.passes_follow hmore m hd)⟩

include hp in
theorem Descends.parent (hq : p.parent? = some q) : fs.Descends q := by
  obtain ⟨kept, between, name, blanks, hsegments, -, -, -, habsolute, ⟨-, rfl⟩ |
    ⟨-, -, -, -, hkept⟩⟩ := Path.exists_segments_of_parent hp hq
  · exact descends_of_not_mem (by decide)
  have hprefix : q.segments <+: p.segments := by
    rw [hkept, hsegments]
    exact (List.cons_prefix_cons.2 ⟨rfl, List.prefix_append kept between⟩).trans
      (List.prefix_append _ _)
  obtain ⟨init, rest, m, l, hinit, hup, hpasses⟩ := h
  rw [Path.startOf_of_isAbsolute hp] at hpasses
  rw [hinit] at hprefix
  obtain ⟨tail, rfl⟩ | ⟨more, hmore⟩ :=
    List.prefix_or_prefix_of_prefix hprefix (List.prefix_append init rest)
  · obtain ⟨k, x, hfirst, -⟩ := hpasses.split
    refine ⟨q.segments, [], k, x, by simp, by simp, ?_⟩
    rwa [Path.startOf_of_isAbsolute habsolute]
  · refine ⟨init, more, m, l, hmore.symm, fun hm => ?_, ?_⟩
    · rw [← hmore] at hprefix
      exact hup (((List.prefix_append_right_inj init).1 hprefix).subset hm)
    · rwa [Path.startOf_of_isAbsolute habsolute]

/-- In a tree without links, a path that descends has an end where a file is. -/
theorem Descends.ending_of_file (ht : fs.IsTree) (hn : fs.NoLinks) (hgrows : Grows fs fs')
    {e : Ending} {name : String} {content : Content} (he : fs'.ending p = .ok e)
    (named : e.name = some name)
    (entry : fs'.entry? (e.directory ++ [name]) = some (.file content)) :
    fs.ending p = .ok e ∧ fs.entry? (e.directory ++ [name]) = some (.file content) := by
  have hfile := (hgrows.kept _).file_iff.1 entry
  have hdirectory := ht.parents _ _ _ hfile
  obtain ⟨hc, ⟨-, hnone⟩ | ⟨last, m, hl, hpasses, hlast⟩⟩ := ending_ok_cases he
  · rw [named] at hnone
    cases hnone
  have hlocation := hpasses.location (hgrows.noLinks hn)
  rw [hgrows.workingDirectory] at hlocation
  have hprefix : (core p).dropLast <+: p.segments := by
    obtain ⟨blanks, hsegments, -⟩ := exists_segments_core p
    exact (List.dropLast_prefix _).trans ⟨blanks, hsegments.symm⟩
  rw [hlocation] at hdirectory
  obtain ⟨k, hway⟩ := h.passes_prefix ht hn hprefix hdirectory
  rw [← hlocation] at hway
  refine ⟨?_, hfile⟩
  rw [ending_of_passes hc hl hway, ← ending_of_passes hc hl hpasses]
  exact he

end descends

end FileRoutes.FileSystem
