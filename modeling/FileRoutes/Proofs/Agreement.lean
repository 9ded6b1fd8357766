import FileRoutes.Proofs.Containment
import FileRoutes.Proofs.Findings

/-!
# Files that agree on a domain

Two file systems without links that agree on a domain of locations are told apart only by paths
that leave the domain. A question about a path that stays in it has the same answer in both, and
a change at such a path fails or succeeds alike and leaves both in agreement.

## The model

* `Path.Through`, `Path.StaysIn` — pieces and paths that lead through a domain only.
* `Alike` — two file systems that agree on a domain.
* `Agree` — so do their processes, and what the system is going to refuse is the same.
* `InStep` — two actions with one answer that leave agreement behind.

## What is proved

* `Alike.locate`, `Alike.entryAt`, `Alike.listNames` — questions have the same answers.
* `Alike.scan` — a folder in the domain is scanned alike.
* `inStep_ensureDirectory`, `inStep_writeFile` — changes are made in step.
-/

namespace FileRoutes

/-! ### Paths in a domain -/

namespace Path

open FileSystem (saysNothing startOf)

variable {d : Location → Prop} {here : Location} {ps : List String} {p q : Path}

/-- Wherever some pieces have led so far is in the domain. -/
def Through (d : Location → Prop) (here : Location) (ps : List String) : Prop :=
  ∀ front, front <+: ps → d (follow here front)

/-- The path is absolute, and it leads through the domain only. -/
structure StaysIn (d : Location → Prop) (p : Path) : Prop where
  /-- The path starts at the root. -/
  absolute : p.isAbsolute = true
  /-- Wherever it leads on its way is in the domain. -/
  through : Through d [] p.segments

/-- The path is relative, and it never goes up. -/
structure StaysBelow (q : Path) : Prop where
  /-- The path is relative. -/
  relative : q.isAbsolute = false
  /-- It never goes up. -/
  noUp : ".." ∉ q.segments

theorem Through.start (h : Through d here ps) : d here := h [] List.nil_prefix

theorem Through.tail {piece : String} (h : Through d here (piece :: ps)) :
    Through d (follow here [piece]) ps := fun front hf => by
  have hd := h (piece :: front) (List.cons_prefix_cons.2 ⟨rfl, hf⟩)
  rwa [← List.singleton_append, follow_append] at hd

theorem Through.of_prefix {qs : List String} (h : Through d here ps) (hq : qs <+: ps) :
    Through d here qs := fun front hf => h front (hf.trans hq)

/-- Pieces that never go up stay where everything below their start is in the domain. -/
theorem through_of_not_mem (hup : ".." ∉ ps) (h : ∀ rel, d (here ++ rel)) : Through d here ps := by
  intro front hf
  obtain ⟨rel, hrel⟩ := exists_follow_append (fun hm => hup (hf.subset hm)) here
  rw [hrel]
  exact h rel

theorem Through.append {qs : List String} (h : Through d here ps)
    (hq : Through d (follow here ps) qs) : Through d here (ps ++ qs) := by
  intro front hf
  obtain hp | ⟨rest, rfl⟩ := List.prefix_or_prefix_of_prefix hf (List.prefix_append ps qs)
  · exact h front hp
  · rw [follow_append]
    exact hq rest ((List.prefix_append_right_inj ps).1 hf)

theorem getLast_trimEnd {l : List String} {name : String} (h : (trimEnd l).getLast? = some name) :
    saysNothing name = false := by
  rw [trimEnd, List.getLast?_reverse] at h
  have hnot := List.head?_dropWhile_not (fun s : String => decide (s = "" ∨ s = ".")) l.reverse
  rw [h] at hnot
  simpa [saysNothing] using hnot

/-- The pieces of an absolute path are those of the path above, its last name or dots, and
pieces that say nothing. -/
theorem exists_segments_of_parent (hp : p.isAbsolute = true) (hq : p.parent? = some q) :
    ∃ kept between name blanks, p.segments = ("" :: (kept ++ between)) ++ name :: blanks ∧
      saysNothing name = false ∧ (∀ s ∈ between, saysNothing s = true) ∧
      (∀ s ∈ blanks, saysNothing s = true) ∧ q.isAbsolute = true ∧
      ((kept = [] ∧ q = ⟨"/"⟩) ∨ ∃ init last, kept = init ++ [last] ∧ saysNothing last = false ∧
        q.segments = "" :: kept) := by
  obtain ⟨s, rest, hsegments⟩ := List.exists_cons_of_ne_nil p.segments_ne_nil
  obtain ⟨rfl, -⟩ := (isAbsolute_iff_segments hsegments).1 hp
  rw [parent?, hsegments] at hq
  dsimp only at hq
  split at hq
  · simp at hq
  · next inner hinner =>
    obtain ⟨blanks, hrest, hblanks⟩ := exists_blanks rest
    obtain ⟨init, name, hname⟩ := (List.eq_nil_or_concat' (trimEnd rest)).resolve_left hinner
    have hdown : saysNothing name = false :=
      getLast_trimEnd (by rw [hname, List.getLast?_concat])
    obtain ⟨between, hinit, hbetween⟩ := exists_blanks init
    rw [hname, List.dropLast_concat] at hq
    have hsplit : p.segments = ("" :: (trimEnd init ++ between)) ++ name :: blanks := by
      rw [hsegments, hrest, hname, ← hinit]
      simp
    refine ⟨trimEnd init, between, name, blanks, hsplit, hdown, hbetween, hblanks, ?_⟩
    split at hq
    · next hkept =>
      obtain rfl := Option.some.inj hq
      exact ⟨by decide, .inl ⟨hkept, by simp⟩⟩
    · next hkept =>
      obtain rfl := Option.some.inj hq
      obtain ⟨front, last, hconcat⟩ := (List.eq_nil_or_concat' (trimEnd init)).resolve_left hkept
      have hq : segments ⟨Text.join "/" ("" :: trimEnd init)⟩ = "" :: trimEnd init := by
        refine segments_join (List.cons_ne_nil _ _) fun s hs =>
          not_mem_of_mem_segments (p := p) ?_
        rw [hsplit]
        simp only [List.mem_cons] at hs
        obtain rfl | hs := hs
        · simp
        · simp [hs]
      exact ⟨(isAbsolute_iff_segments hq).2 ⟨rfl, hkept⟩, .inr ⟨front, last, hconcat,
        getLast_trimEnd (by rw [hconcat, List.getLast?_concat]), hq⟩⟩

namespace StaysBelow

/-- A path that stays below a directory leads to a location below it. -/
theorem exists_landing_join (h : StaysBelow q) (here : Location) (p : Path) :
    ∃ rel, landing here (p.join q) = landing here p ++ rel := by
  rw [landing_join h.relative]
  exact exists_follow_append h.noUp _

theorem join {r : Path} (h : StaysBelow q) (hr : StaysBelow r) : StaysBelow (q.join r) := by
  refine ⟨(isAbsolute_join_of_relative hr.relative q).trans h.relative, ?_⟩
  obtain ⟨init, blanks, hsegments, hq, -⟩ := exists_join_segments hr.relative q
  rw [hsegments, List.mem_append, not_or]
  exact ⟨fun hm => h.noUp (hq ▸ List.mem_append_left _ hm), hr.noUp⟩

theorem of_isName {name : String} (h : FileSystem.IsName name) : StaysBelow ⟨name⟩ := by
  have hnames : ∀ s ∈ [name], FileSystem.IsName s := by simpa using h
  refine ⟨not_isAbsolute_ofNames hnames, ?_⟩
  have hsegments : segments ⟨name⟩ = [name] := segments_ofNames (List.cons_ne_nil _ _) hnames
  rw [hsegments, List.mem_singleton]
  exact h.down.2.symm

theorem of_isBelow {file : String} (h : IsBelow file) : StaysBelow ⟨file⟩ :=
  ⟨h.not_isAbsolute, fun hm => (h _ hm).2 rfl⟩

end StaysBelow

namespace StaysIn

theorem startOf_eq (h : StaysIn d p) (here : Location) : startOf p.text here = [] :=
  startOf_of_isAbsolute h.absolute here

theorem landing_eq (h : StaysIn d p) (here : Location) : landing here p = landing [] p := by
  rw [landing, landing, h.startOf_eq, h.startOf_eq]

theorem landing_mem (h : StaysIn d p) : d (landing [] p) := by
  rw [landing, h.startOf_eq]
  exact h.through _ List.prefix_rfl

/-- A path that stays below a path in the domain is in the domain, if everything below is. -/
theorem join (h : StaysIn d p) (hq : q.StaysBelow) (hbelow : ∀ rel, d (landing [] p ++ rel)) :
    StaysIn d (p.join q) := by
  refine ⟨isAbsolute_join h.absolute q, ?_⟩
  obtain ⟨init, blanks, hsegments, hp, hblanks, -⟩ := exists_join_segments hq.relative p
  have hinit : follow [] init = landing [] p := by
    have hnothing : ∀ b ∈ blanks, saysNothing b = true := fun b hb => by
      rw [hblanks b hb]
      decide
    rw [landing, h.startOf_eq, hp, follow_append, follow_saysNothing hnothing]
  rw [hsegments]
  refine (h.through.of_prefix (hp ▸ List.prefix_append init blanks)).append ?_
  rw [hinit]
  exact through_of_not_mem hq.noUp hbelow

/-- The directory above a path in the domain is in the domain. -/
theorem parent (h : StaysIn d p) (hq : p.parent? = some q) : StaysIn d q := by
  obtain ⟨kept, between, name, blanks, hsegments, -, -, -, habsolute, ⟨-, rfl⟩ |
    ⟨-, -, -, -, hq⟩⟩ := exists_segments_of_parent h.absolute hq
  · refine ⟨habsolute, fun front hf => ?_⟩
    have hnothing : ∀ b ∈ front, saysNothing b = true := fun b hb => by
      have hmem : b ∈ ["", ""] := hf.subset hb
      rw [show b = "" by simpa using hmem]
      decide
    rw [follow_saysNothing hnothing]
    exact Through.start h.through
  · refine ⟨habsolute, h.through.of_prefix ?_⟩
    rw [hq, hsegments]
    exact (List.cons_prefix_cons.2 ⟨rfl, List.prefix_append kept between⟩).trans
      (List.prefix_append _ _)

theorem directory (h : StaysIn d p) (hp : p.directory.isAbsolute = true) :
    StaysIn d p.directory := by
  cases hq : p.parent? with
  | none =>
    rw [Path.directory, hq] at hp
    simp [isAbsolute] at hp
  | some q =>
    rw [Path.directory, hq]
    exact h.parent hq

end StaysIn

end Path

namespace FileSystem

open FileRoutes.Path (follow landing Through StaysIn)

/-! ### Agreement -/

/-- Two file systems without links agree on a domain. -/
structure Alike (d : Location → Prop) (fs fs' : FileSystem) : Prop where
  /-- The entries in the domain are the same. -/
  entries : ∀ l, d l → fs.entry? l = fs'.entry? l
  /-- The first file system has no links. -/
  noLinks : fs.NoLinks
  /-- The second file system has no links. -/
  noLinks' : fs'.NoLinks

/-- Two file systems without links agree on a domain, as seen by processes that cannot be told
apart. -/
structure Agree (d : Location → Prop) (fs fs' : FileSystem) : Prop extends Alike d fs fs' where
  /-- The processes have the same word. -/
  tag : fs.processTag = fs'.processTag
  /-- They have named equally many temporary files. -/
  temporaries : fs.temporaries = fs'.temporaries
  /-- The system is going to refuse the same changes. -/
  refusals : fs.refusals = fs'.refusals

variable {d : Location → Prop} {fs fs' : FileSystem} {p q : Path} {last : Bool}

/-! ### Questions -/

namespace Alike

variable (h : Alike d fs fs')
include h

/-- Pieces that lead through the domain are followed alike. -/
theorem walk (last : Bool) (links : Nat) {here : Location} {ps : List String}
    (hp : Through d here ps) : fs.walk last links here ps = fs'.walk last links here ps := by
  induction ps generalizing here with
  | nil => rw [walk_nil, walk_nil]
  | cons piece rest ih =>
    have htail := ih hp.tail
    obtain hs | rfl | ⟨down, long⟩ | ⟨down, short⟩ := step_cases piece
    · rw [Path.follow_cons_nothing _ _ hs, Path.follow_nil] at htail
      rw [walk_nothing hs, walk_nothing hs, htail]
    · rw [Path.follow_cons_up, Path.follow_nil] at htail
      rw [walk_up, walk_up, htail]
    · rw [walk_of_long down long, walk_of_long down long]
    · have hentry : fs.entry? (here ++ [piece]) = fs'.entry? (here ++ [piece]) := by
        refine h.entries _ ?_
        have hstep := hp [piece] (List.cons_prefix_cons.2 ⟨rfl, List.nil_prefix⟩)
        rwa [Path.follow_cons_down _ _ down, Path.follow_nil] at hstep
      rw [Path.follow_cons_down _ _ down, Path.follow_nil] at htail
      cases entry : fs.entry? (here ++ [piece]) with
      | none =>
        rw [walk_of_none down short entry, walk_of_none down short (hentry.symm.trans entry)]
      | some e =>
        cases e with
        | directory =>
          rw [walk_of_directory down short entry,
            walk_of_directory down short (hentry.symm.trans entry), htail]
        | file content =>
          rw [walk_of_file down short entry, walk_of_file down short (hentry.symm.trans entry)]
        | link target => exact absurd entry (h.noLinks _ target)

theorem locate (last : Bool) (hp : StaysIn d p) : fs.locate last p = fs'.locate last p := by
  rw [FileSystem.locate, FileSystem.locate, hp.startOf_eq, hp.startOf_eq,
    h.walk last greatestLinks hp.through]

theorem ending (hp : StaysIn d p) : fs.ending p = fs'.ending p := by
  have hfront : (core p).dropLast <+: p.segments := by
    obtain ⟨blanks, hsegments, -⟩ := exists_segments_core p
    exact (List.dropLast_prefix _).trans ⟨blanks, hsegments.symm⟩
  have hthrough : Through d [] ((core p).dropLast ++ [""]) :=
    (hp.through.of_prefix hfront).append fun front hf => by
      have hnothing : ∀ b ∈ front, saysNothing b = true := fun b hb => by
        have hmem : b ∈ [""] := hf.subset hb
        rw [List.mem_singleton.1 hmem]
        decide
      rw [Path.follow_saysNothing hnothing]
      exact hp.through _ hfront
  have hwalk := h.walk true greatestLinks hthrough
  rw [core] at hwalk
  unfold FileSystem.ending
  simp only [hp.startOf_eq, hwalk]

theorem landing_entry (hp : StaysIn d p) :
    fs.entry? (landing [] p) = fs'.entry? (landing [] p) := h.entries _ hp.landing_mem

/-- What a path in the domain leads to is the same. -/
theorem entry_of_locate (hp : StaysIn d p) {place : Place}
    (hl : fs.locate last p = .ok place) : fs.entry? place.location = fs'.entry? place.location := by
  rw [locate_location h.noLinks hl, hp.landing_eq]
  exact h.landing_entry hp

theorem resolve (hp : StaysIn d p) : fs.resolve p = fs'.resolve p := by
  rw [FileSystem.resolve, FileSystem.resolve, h.locate true hp]

theorem entryAt (hp : StaysIn d p) : fs.entryAt p = fs'.entryAt p := by
  rw [FileSystem.entryAt, FileSystem.entryAt, h.resolve hp]
  cases hr : fs'.resolve p with
  | error e => rfl
  | ok l =>
    have hl := locate_of_resolve ((h.resolve hp).trans hr)
    have he : fs.entry? l = fs'.entry? l := h.entry_of_locate hp hl
    simp only [bind, Except.bind, he]

theorem holds (hp : StaysIn d p) : fs.holds p = fs'.holds p := by
  rw [FileSystem.holds, FileSystem.holds, h.entryAt hp]

theorem isDirectory (hp : StaysIn d p) : fs.isDirectory p = fs'.isDirectory p := by
  rw [FileSystem.isDirectory, FileSystem.isDirectory, h.entryAt hp]

variable (ht : fs.IsTree) (ht' : fs'.IsTree)
include ht ht'

/-- The names in a directory are the same, if everything below it is in the domain. -/
theorem names {l : Location} (hl : ∀ name, d (l ++ [name])) : fs.names l = fs'.names l :=
  ht.names_congr ht' fun name => by rw [h.entries _ (hl name)]

theorem listNames (hp : StaysIn d p) (hbelow : ∀ rel, d (landing [] p ++ rel)) :
    fs.listNames p = fs'.listNames p := by
  rw [FileSystem.listNames, FileSystem.listNames, h.resolve hp]
  cases hr : fs'.resolve p with
  | error e => rfl
  | ok l =>
    have hl := locate_of_resolve ((h.resolve hp).trans hr)
    have he : fs.entry? l = fs'.entry? l := h.entry_of_locate hp hl
    have hlanding : l = landing [] p := by
      rw [← hp.landing_eq fs.workingDirectory]
      exact locate_location h.noLinks hl
    have hnames : fs.names l = fs'.names l := by
      rw [hlanding]
      exact h.names ht ht' fun name => hbelow [name]
    simp only [bind, Except.bind, he, hnames]

end Alike

end FileSystem

/-! ### Changes -/

namespace FileSystem

open FileRoutes.Path (follow landing StaysIn StaysBelow)
open FileSystem.Action

variable {α β : Type} {d : Location → Prop} {fs fs' : FileSystem} {p : Path}

theorem entry_place (fs : FileSystem) (l m : Location) (e : Entry) :
    entry? (fs.place l e) m = if m = l ∧ m ≠ [] then some e else fs.entry? m := by
  split
  · next h => rw [← h.1, entry_place_self fs h.2]
  · next h =>
    by_cases hl : m = l
    · obtain rfl : m = [] := by_contra fun hm => h ⟨hl, hm⟩
      rw [entry_root, entry_root]
    · rw [entry_place_of_ne _ hl]

theorem entry_remove (fs : FileSystem) (l m : Location) :
    entry? (fs.remove l) m = if m = l ∧ m ≠ [] then none else fs.entry? m := by
  split
  · next h => rw [← h.1, entry_remove_self fs h.2]
  · next h =>
    by_cases hl : m = l
    · obtain rfl : m = [] := by_contra fun hm => h ⟨hl, hm⟩
      rw [entry_root, entry_root]
    · rw [entry_remove_of_ne _ hl]

theorem NoLinks.place (h : fs.NoLinks) (l : Location) {e : Entry}
    (he : ∀ target, e ≠ .link target) :
    (fs.place l e).NoLinks := fun m target hm => by
  rw [entry_place] at hm
  split at hm
  · exact he target (Option.some.inj hm)
  · exact h m target hm

theorem NoLinks.remove (h : fs.NoLinks) (l : Location) : (fs.remove l).NoLinks :=
  fun m target hm => by
    rw [entry_remove] at hm
    split at hm
    · cases hm
    · exact h m target hm

namespace Agree

theorem decided (h : Agree d fs fs') : Agree d fs.decided fs'.decided :=
  { h with refusals := congrArg List.tail h.refusals }

theorem place (h : Agree d fs fs') (l : Location) {e : Entry} (he : ∀ target, e ≠ .link target) :
    Agree d (fs.place l e) (fs'.place l e) :=
  { h with
    entries := fun m hm => by rw [entry_place, entry_place, h.entries m hm]
    noLinks := h.noLinks.place l he
    noLinks' := h.noLinks'.place l he }

theorem remove (h : Agree d fs fs') (l : Location) : Agree d (fs.remove l) (fs'.remove l) :=
  { h with
    entries := fun m hm => by rw [entry_remove, entry_remove, h.entries m hm]
    noLinks := h.noLinks.remove l
    noLinks' := h.noLinks'.remove l }

end Agree

/-- Two actions come to the same on two file systems, and leave them in agreement. -/
structure InStep (d : Location → Prop) (x y : Action α) (fs fs' : FileSystem) : Prop where
  /-- Their answers are the same. -/
  answers : answer x fs = answer y fs'
  /-- The files after them agree. -/
  agree : Agree d (filesAfter x fs) (filesAfter y fs')

namespace InStep

theorem pure (h : Agree d fs fs') (a : α) : InStep d (pure a) (pure a) fs fs' := ⟨rfl, h⟩

theorem fail (h : Agree d fs fs') (e : Error) :
    InStep d (throw e : Action α) (throw e) fs fs' := ⟨rfl, h⟩

theorem bind {x y : Action α} {f g : α → Action β} (h : InStep d x y fs fs')
    (hf : ∀ a, answer x fs = .ok a → InStep d (f a) (g a) (filesAfter x fs) (filesAfter y fs')) :
    InStep d (x >>= f) (y >>= g) fs fs' := by
  cases ha : answer x fs with
  | error e =>
    have ha' := h.answers ▸ ha
    constructor
    · rw [answer_bind, answer_bind, ha, ha']
    · rw [filesAfter_bind, filesAfter_bind, ha, ha']
      exact h.agree
  | ok a =>
    have ha' := h.answers ▸ ha
    have hs := hf a ha
    constructor
    · rw [answer_bind, answer_bind, ha, ha']
      exact hs.answers
    · rw [filesAfter_bind, filesAfter_bind, ha, ha']
      exact hs.agree

theorem tryCatch {x y : Action α} {f g : Error → Action α} (h : InStep d x y fs fs')
    (hf : ∀ e, answer x fs = .error e → InStep d (f e) (g e) (filesAfter x fs) (filesAfter y fs')) :
    InStep d (tryCatch x f) (tryCatch y g) fs fs' := by
  cases ha : answer x fs with
  | ok a =>
    have ha' := h.answers ▸ ha
    constructor
    · rw [answer_tryCatch, answer_tryCatch, ha, ha']
    · rw [filesAfter_tryCatch, filesAfter_tryCatch, ha, ha']
      exact h.agree
  | error e =>
    have ha' := h.answers ▸ ha
    have hs := hf e ha
    constructor
    · rw [answer_tryCatch, answer_tryCatch, ha, ha']
      exact hs.answers
    · rw [filesAfter_tryCatch, filesAfter_tryCatch, ha, ha']
      exact hs.agree

/-- What follows may depend on the files as they are. -/
theorem bind_get {f g : FileSystem → Action α} (h : InStep d (f fs) (g fs') fs fs') :
    InStep d (get >>= f) (get >>= g) fs fs' := ⟨h.answers, h.agree⟩

/-- A question with one answer is followed by what depends on the answer. -/
theorem bind_ask {question : FileSystem → Except Error α} {f g : α → Action β}
    (h : Agree d fs fs') (hq : question fs = question fs')
    (hf : ∀ a, question fs = .ok a → InStep d (f a) (g a) fs fs') :
    InStep d (ask question >>= f) (ask question >>= g) fs fs' := by
  have hasked : InStep d (ask question) (ask question) fs fs' :=
    ⟨by rw [answer_ask, answer_ask, hq], by rwa [filesAfter_ask, filesAfter_ask]⟩
  refine hasked.bind fun a ha => ?_
  rw [filesAfter_ask, filesAfter_ask]
  exact hf a ((answer_ask question fs).symm.trans ha)

theorem bind_throw {f g : α → Action β} (h : Agree d fs fs') (e : Error) :
    InStep d ((throw e : Action α) >>= f) (throw e >>= g) fs fs' :=
  (fail h e).bind fun a ha => by
    rw [answer_throw] at ha
    cases ha

theorem set {gs gs' : FileSystem} (h : Agree d gs gs') :
    InStep d (set gs : Action PUnit) (set gs') fs fs' := ⟨rfl, h⟩

theorem modify {f : FileSystem → FileSystem} (h : Agree d (f fs) (f fs')) :
    InStep d (modify f : Action PUnit) (modify f) fs fs' := ⟨rfl, h⟩

theorem permit (h : Agree d fs fs') : InStep d permit permit fs fs' := by
  refine bind_get ?_
  rw [← h.refusals]
  split
  · exact pure h ()
  · next refusal later hr =>
    have hset : Agree d { fs with refusals := later } { fs' with refusals := later } :=
      { h with refusals := rfl }
    refine bind (set hset) fun u _ => ?_
    rw [filesAfter_set, filesAfter_set]
    split
    · exact pure hset ()
    · exact fail hset _

/-- A change is made where the system refuses none. -/
theorem bind_permit {f g : Unit → Action α} (h : Agree d fs fs')
    (hf : InStep d (f ()) (g ()) fs.decided fs'.decided) :
    InStep d (Action.permit >>= f) (Action.permit >>= g) fs fs' := by
  refine (permit h).bind fun _ _ => ?_
  rw [filesAfter_permit, filesAfter_permit]
  exact hf

end InStep

section steps

variable (h : Agree d fs fs') (hp : StaysIn d p)
include h hp

theorem inStep_makeDirectory : InStep d (makeDirectory p) (makeDirectory p) fs fs' := by
  refine .bind_ask h (h.ending hp) fun e he => ?_
  split
  · exact .fail h _
  · next name hn =>
    have hentry : fs.entry? (e.directory ++ [name]) = fs'.entry? (e.directory ++ [name]) := by
      obtain ⟨_, _, _, _, _, _, _, _, hlanding⟩ := ending_name h.noLinks he hn
      rw [hlanding, hp.landing_eq]
      exact h.landing_entry hp
    refine .bind_get ?_
    dsimp only
    rw [← hentry]
    split
    · exact .bind_throw h _
    · exact .bind_permit h (.modify (h.decided.place _ fun target => by simp))

theorem inStep_makeOrKeep : InStep d (makeOrKeep p) (makeOrKeep p) fs fs' := by
  have hmade := inStep_makeDirectory h hp
  refine hmade.tryCatch fun e _ => .bind_get ?_
  rw [hmade.agree.isDirectory hp]
  split
  · exact .pure hmade.agree ()
  · exact .fail hmade.agree e

omit hp in
theorem inStep_ensureFirst {ps : List Path} (hps : ∀ p ∈ ps, StaysIn d p) :
    InStep d (ensureFirst ps) (ensureFirst ps) fs fs' := by
  induction ps generalizing fs fs' with
  | nil => exact .pure h ()
  | cons p above ih =>
    have hp := hps p List.mem_cons_self
    have hkept := inStep_makeOrKeep h hp
    rw [ensureFirst]
    split
    · exact .pure h ()
    · refine hkept.tryCatch fun e _ => ?_
      split
      · have habove := ih hkept.agree fun q hq => hps q (List.mem_cons_of_mem _ hq)
        exact habove.bind fun _ _ => inStep_makeOrKeep habove.agree hp
      · exact .fail hkept.agree e

omit h in
theorem staysIn_ancestors (fuel : Nat) : ∀ q ∈ ancestors fuel p, StaysIn d q := by
  induction fuel generalizing p with
  | zero => exact fun q hq => absurd hq List.not_mem_nil
  | succ fuel ih =>
    intro q hq
    rw [ancestors] at hq
    obtain rfl | hq := List.mem_cons.1 hq
    · exact hp
    · cases hparent : p.parent? with
      | none => simp [hparent] at hq
      | some r =>
        rw [hparent] at hq
        exact ih (hp.parent hparent) q hq

theorem inStep_ensureDirectory : InStep d (ensureDirectory p) (ensureDirectory p) fs fs' :=
  inStep_ensureFirst h (staysIn_ancestors hp _)

theorem inStep_openFile : InStep d (openFile p) (openFile p) fs fs' := by
  refine .bind_ask h (h.locate true hp) fun place hl => .bind_get ?_
  dsimp only
  rw [← h.entry_of_locate hp hl]
  split
  · exact .bind_throw h _
  · have hplaced := h.decided.place place.location (e := .file (.text "")) fun target => by simp
    exact .bind_permit h (.bind (.modify hplaced) fun _ _ => .pure hplaced _)

theorem inStep_putFile (content : Content) :
    InStep d (putFile p content) (putFile p content) fs fs' := by
  have hopened := inStep_openFile h hp
  refine hopened.bind fun l _ => .bind_permit hopened.agree (.modify ?_)
  exact hopened.agree.decided.place l (e := .file content) fun target => by simp

theorem inStep_removeFile : InStep d (removeFile p) (removeFile p) fs fs' := by
  refine .bind_ask h (h.locate false hp) fun place hl => .bind_get ?_
  cases place with
  | free l => exact .fail h _
  | found l =>
    have hentry : fs.entry? l = fs'.entry? l := h.entry_of_locate hp hl
    dsimp only
    rw [← hentry]
    split
    · exact .fail h _
    · exact .set (h.remove l)

omit h in
theorem inStep_orRemoving {x : Action α} (hx : InStep d x x fs fs') :
    InStep d (orRemoving p x) (orRemoving p x) fs fs' := by
  refine hx.tryCatch fun e _ => ?_
  have hremoved := inStep_removeFile hx.agree hp
  have hcaught : InStep d (tryCatch (removeFile p) fun _ => pure ())
      (tryCatch (removeFile p) fun _ => pure ()) (filesAfter x fs) (filesAfter x fs') :=
    hremoved.tryCatch fun _ _ => .pure hremoved.agree ()
  exact hcaught.bind fun _ _ => .fail hcaught.agree e

theorem inStep_moveFile {q : Path} (hq : StaysIn d q) :
    InStep d (moveFile q p) (moveFile q p) fs fs' := by
  have hlast : ∀ {r : Path} {e : Ending} {name : String}, StaysIn d r → fs.ending r = .ok e →
      e.name = some name →
        fs.entry? (e.directory ++ [name]) = fs'.entry? (e.directory ++ [name]) := by
    intro r e name hr he hn
    obtain ⟨_, _, _, _, _, _, _, _, hlanding⟩ := ending_name h.noLinks he hn
    rw [hlanding, hr.landing_eq]
    exact h.landing_entry hr
  refine .bind_ask h (h.ending hq) fun s hs => .bind_ask h (h.ending hp) fun t ht => ?_
  split
  · next sourceName targetName hsource htarget =>
    refine .bind_get ?_
    dsimp only
    rw [← hlast hq hs hsource, ← hlast hp ht htarget]
    split
    · exact .fail h _
    · next e he =>
      have hplain : ∀ target, e ≠ .link target := fun target hlink =>
        h.noLinks _ target (hlink ▸ he)
      split
      · exact .bind_throw h _
      · split
        · exact .bind_throw h _
        · exact .bind_permit h (.modify ((h.decided.remove _).place _ hplain))
  · exact .fail h _

omit hp in
/-- The temporary file beside a file has one name in both. -/
theorem inStep_temporaryBeside (hdirectory : StaysIn d p.directory)
    (hbelow : ∀ rel, d (landing [] p.directory ++ rel)) (htag : '/' ∉ fs.processTag.toList) :
    InStep d (temporaryBeside p) (temporaryBeside p) fs fs' ∧
      ∀ q, answer (temporaryBeside p) fs = .ok q → StaysIn d q := by
  rw [temporaryBeside]
  cases hfile : p.fileName? with
  | none => exact ⟨.fail h _, fun q hq => by cases hq⟩
  | some name =>
    have hname : '/' ∉ name.toList := by
      obtain ⟨component, hlast, hcomponent⟩ := Option.bind_eq_some_iff.1 hfile
      exact (Path.mem_names (List.mem_filterMap.2
        ⟨component, List.mem_of_getLast? hlast, hcomponent⟩)).2
    have hcounted : Agree d { fs with temporaries := fs.temporaries + 1 }
        { fs' with processTag := fs.processTag, temporaries := fs.temporaries + 1 } :=
      { h with tag := rfl, temporaries := rfl }
    have hq : StaysIn d (p.directory.join ⟨temporaryNameOf fs.processTag name fs.temporaries⟩) :=
      hdirectory.join (.of_isBelow (isBelow_temporaryNameOf htag hname _).2) hbelow
    refine ⟨.bind_get ?_, fun q he => Except.ok.inj he ▸ hq⟩
    rw [← h.tag, ← h.temporaries]
    exact .bind (.set hcounted) fun _ _ => .pure hcounted _

theorem inStep_writeFile (text : String) (hdirectory : StaysIn d p.directory)
    (hbelow : ∀ rel, d (landing [] p.directory ++ rel)) (htag : '/' ∉ fs.processTag.toList) :
    InStep d (writeFile p text) (writeFile p text) fs fs' := by
  obtain ⟨htemporary, hplace⟩ := inStep_temporaryBeside h hdirectory hbelow htag
  refine htemporary.bind fun q hq => ?_
  have hput := inStep_orRemoving (hplace q hq)
    (inStep_putFile htemporary.agree (hplace q hq) (.text text))
  exact hput.bind fun _ _ =>
    inStep_orRemoving (hplace q hq) (inStep_moveFile hput.agree hp (hplace q hq))

end steps

end FileSystem

/-! ### Scans -/

namespace Manifest

open FileSystem (Alike IsTree)
open FileRoutes.Path (landing StaysIn StaysBelow)

section scans

variable {d : Location → Prop} {fs fs' : FileSystem} {root : Path} (h : Alike d fs fs')
  (ht : fs.IsTree) (ht' : fs'.IsTree) (hroot : StaysIn d root)
  (hbelow : ∀ rel, d (landing [] root ++ rel))

include hroot hbelow in
/-- What is below a folder in the domain is in the domain. -/
theorem staysIn_join {q : Path} (hq : StaysBelow q) :
    StaysIn d (root.join q) ∧ ∀ rel, d (landing [] (root.join q) ++ rel) := by
  refine ⟨hroot.join hq hbelow, fun rel => ?_⟩
  obtain ⟨between, hlanding⟩ := hq.exists_landing_join [] root
  rw [hlanding, List.append_assoc]
  exact hbelow _

include h ht ht' hroot hbelow

/-- What is met below a folder in the domain is the same. -/
theorem visitsBelow_alike (fuel : Nat) {relative : Path} (hrelative : StaysBelow relative) :
    visitsBelow fs root fuel relative = visitsBelow fs' root fuel relative ∧
      ∀ file, Visit.file file ∈ visitsBelow fs root fuel relative → StaysBelow file := by
  induction fuel generalizing relative with
  | zero => exact ⟨rfl, fun file hf => absurd hf List.not_mem_nil⟩
  | succ fuel ih =>
    obtain ⟨hin, hunder⟩ := staysIn_join hroot hbelow hrelative
    have hlist := h.listNames ht ht' hin hunder
    cases hnames : fs.listNames (root.join relative) with
    | error e =>
      rw [visitsBelow_of_error hnames, visitsBelow_of_error (hlist ▸ hnames)]
      exact ⟨rfl, fun file hf => by simp at hf⟩
    | ok names =>
      rw [visitsBelow_succ hnames, visitsBelow_succ (hlist ▸ hnames)]
      have hchild : ∀ name ∈ names, StaysBelow (relative.child name) := fun name hm =>
        hrelative.join (.of_isName (ht.isName_of_listNames hnames hm))
      have hkind : ∀ name ∈ names, fs.isDirectory (root.join (relative.child name)) =
          fs'.isDirectory (root.join (relative.child name)) := fun name hm =>
        h.isDirectory (staysIn_join hroot hbelow (hchild name hm)).1
      refine ⟨List.flatMap_congr fun name hm => ?_, fun file hf => ?_⟩
      · rw [hkind name hm, (ih (hchild name hm)).1]
      · obtain ⟨name, hm, hf⟩ := List.mem_flatMap.1 hf
        split at hf
        · simp at hf
        · exact (ih (hchild name hm)).2 file hf
        · obtain rfl : file = relative.child name := by simpa using hf
          exact hchild name hm

/-- A folder in the domain is scanned alike. -/
theorem scan_alike (role : Role) : scan fs role root = scan fs' role root := by
  have hempty : StaysBelow ⟨""⟩ := ⟨by decide, by decide⟩
  obtain ⟨hvisits, hfiles⟩ := visitsBelow_alike h ht ht' hroot hbelow FileSystem.pathBound hempty
  have hjudge : ∀ v ∈ visits fs root, judge fs role root v = judge fs' role root v := by
    intro v hv
    cases v with
    | unreadable path e => rfl
    | file relative =>
      have hin := (staysIn_join hroot hbelow (hfiles relative hv)).1
      exact (judgeFile_congr (h.entryAt hin).symm).symm
  have hjudged : judged fs role root = judged fs' role root := by
    rw [judged, judged, List.map_congr_left hjudge, visits, hvisits]
    rfl
  rw [scan, scan, h.holds hroot, hjudged]

end scans

end Manifest

end FileRoutes
