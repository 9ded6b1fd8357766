import FileRoutes.Proofs.Places
import FileRoutes.Proofs.Following

/-!
# Ways through directories and links

A path goes through directories to its last name, and may go through links on the way. This
module follows the pieces of a path as far as something stands behind them. Such a way ends in a
directory, and what stands behind it is followed from there: so a file below a directory is found
from the location of the directory, however the directory was reached.

## The model

* `Passes` — pieces that lead from one location to another, one rule for each kind of piece; two
  numbers count the links that may still be followed before and behind them.
* `PassesTo` — the location that all pieces of a path lead to.
* `KeepsWays` — another file system that has every directory and every link of the first one.

## What is proved

* `Passes.walk_append`, `exists_passes` — following pieces is following a first part of them and
  going on from where it leads.
* `locate_join` — a relative path is followed from where the directory leads it is joined to.
* `Passes.kept` — a way stays as long as the directories and links on it do.
-/

namespace FileRoutes.FileSystem

open FileRoutes.Path (GoesDown follow landing)

/-- Pieces lead from a location to another one, with something behind them; the numbers are those
of the links that may still be followed. -/
inductive Passes (fs : FileSystem) : Nat → Location → List String → Nat → Location → Prop
  /-- No piece is left. -/
  | here {n : Nat} {l : Location} : Passes fs n l [] n l
  /-- A piece says nothing. -/
  | nothing {n m : Nat} {l l' : Location} {piece : String} {rest : List String}
      (nothing : saysNothing piece = true) (h : Passes fs n l rest m l') :
      Passes fs n l (piece :: rest) m l'
  /-- One directory up. -/
  | up {n m : Nat} {l l' : Location} {rest : List String} (h : Passes fs n l.dropLast rest m l') :
      Passes fs n l (".." :: rest) m l'
  /-- A directory. -/
  | directory {n m : Nat} {l l' : Location} {piece : String} {rest : List String}
      (down : GoesDown piece) (short : ¬ greatestName < piece.utf8ByteSize)
      (entry : fs.entry? (l ++ [piece]) = some .directory)
      (h : Passes fs n (l ++ [piece]) rest m l') : Passes fs n l (piece :: rest) m l'
  /-- A link, in place of which its target is followed. -/
  | link {n m : Nat} {l l' : Location} {piece target : String} {rest : List String}
      (down : GoesDown piece) (short : ¬ greatestName < piece.utf8ByteSize)
      (entry : fs.entry? (l ++ [piece]) = some (.link target))
      (h : Passes fs n (startOf target l) (Text.split '/' target ++ rest) m l') :
      Passes fs (n + 1) l (piece :: rest) m l'

/-- All pieces of a path lead to a location. -/
def PassesTo (fs : FileSystem) (p : Path) (l : Location) : Prop :=
  ∃ m, fs.Passes greatestLinks (startOf p.text fs.workingDirectory) p.segments m l

/-- Every directory and every link is still there, and relative paths start where they did. -/
structure KeepsWays (fs fs' : FileSystem) : Prop extends KeepsDirectories fs fs' where
  /-- Every link is kept. -/
  links : ∀ l target, fs.entry? l = some (.link target) → fs'.entry? l = some (.link target)

/-- No entry below a location is a link. -/
def NoLinksBelow (fs : FileSystem) (l : Location) : Prop :=
  ∀ rel target, rel ≠ [] → fs.entry? (l ++ rel) ≠ some (.link target)

variable {fs fs' : FileSystem} {n m : Nat} {l l' : Location} {ps qs : List String} {last : Bool}

theorem NoLinks.below (h : fs.NoLinks) (l : Location) : fs.NoLinksBelow l :=
  fun rel target _ => h (l ++ rel) target

/-! ### Ways and walks -/

theorem Passes.append (h : fs.Passes n l ps m l') {k : Nat} {l'' : Location}
    (hq : fs.Passes m l' qs k l'') : fs.Passes n l (ps ++ qs) k l'' := by
  induction h with
  | here => exact hq
  | nothing hs _ ih => exact .nothing hs (ih hq)
  | up _ ih => exact .up (ih hq)
  | directory down short entry _ ih => exact .directory down short entry (ih hq)
  | link down short entry _ ih => exact .link down short entry (by simpa using ih hq)

/-- Pieces that say nothing lead nowhere else. -/
theorem passes_saysNothing (n : Nat) (l : Location) (h : ∀ p ∈ ps, saysNothing p = true) :
    fs.Passes n l ps n l := by
  induction ps with
  | nil => exact .here
  | cons p ps ih =>
    exact .nothing (h p List.mem_cons_self) (ih fun q hq => h q (List.mem_cons_of_mem _ hq))

/-- What stands behind a way is followed from where the way leads. -/
theorem Passes.walk_append (h : fs.Passes n l ps m l') (hq : qs ≠ []) (last : Bool) :
    fs.walk last n l (ps ++ qs) = fs.walk last m l' qs := by
  induction h with
  | here => rfl
  | nothing hs _ ih => rw [List.cons_append, walk_nothing hs, ih]
  | up _ ih => rw [List.cons_append, walk_up, ih]
  | directory down short entry _ ih =>
    rw [List.cons_append, walk_of_directory down short entry, ih]
  | link down short entry _ ih =>
    rw [List.cons_append, walk_link down short entry (by simp [hq]), ← ih, List.append_assoc]

/-- Following a way ends where it leads. -/
theorem Passes.walk (h : fs.Passes n l ps m l') : fs.walk true n l ps = .ok (.found l') := by
  induction h with
  | here => exact walk_nil
  | nothing hs _ ih => rw [walk_nothing hs, ih]
  | up _ ih => rw [walk_up, ih]
  | directory down short entry _ ih => rw [walk_of_directory down short entry, ih]
  | link down short entry _ ih =>
    rw [walk_link down short entry (by simp), ih]

/-- What can be followed to its end passes every first part of it that has something behind. -/
theorem exists_passes {place : Place} (hq : qs ≠ [])
    (h : fs.walk last n l (ps ++ qs) = .ok place) :
    ∃ m l', fs.Passes n l ps m l' ∧ fs.walk last m l' qs = .ok place := by
  induction n using Nat.strongRecOn generalizing l ps with
  | _ n ihn =>
  induction ps generalizing l with
  | nil => exact ⟨n, l, .here, h⟩
  | cons piece rest ih =>
    obtain ⟨hs, hw⟩ | ⟨rfl, hw⟩ |
      ⟨down, short, ⟨entry, hw⟩ | ⟨k, target, rfl, entry, -, hw⟩ | ⟨hnil, -⟩⟩ := walk_cons_cases h
    · obtain ⟨m, l', hp, hw⟩ := ih hw
      exact ⟨m, l', .nothing hs hp, hw⟩
    · obtain ⟨m, l', hp, hw⟩ := ih hw
      exact ⟨m, l', .up hp, hw⟩
    · obtain ⟨m, l', hp, hw⟩ := ih hw
      exact ⟨m, l', .directory down short entry hp, hw⟩
    · replace hw : fs.walk last k (startOf target l) ((Text.split '/' target ++ rest) ++ qs) =
          .ok place := by
        rw [List.append_assoc]
        exact hw
      obtain ⟨m, l', hp, hw⟩ := ihn k (Nat.lt_succ_self k) hw
      exact ⟨m, l', .link down short entry hp, hw⟩
    · exact absurd (List.append_eq_nil_iff.1 hnil).2 hq

/-- What leads to a directory passes it. -/
theorem passes_of_walk (h : fs.walk last n l ps = .ok (.found l'))
    (hd : fs.entry? l' = some .directory) : ∃ m, fs.Passes n l ps m l' := by
  induction n using Nat.strongRecOn generalizing l ps with
  | _ n ihn =>
  induction ps generalizing l with
  | nil =>
    rw [walk_nil] at h
    cases h
    exact ⟨n, .here⟩
  | cons piece rest ih =>
    obtain ⟨hs, hw⟩ | ⟨rfl, hw⟩ |
      ⟨down, short, ⟨entry, hw⟩ | ⟨k, target, rfl, entry, -, hw⟩ | ⟨-, hno, hl, -⟩⟩ :=
        walk_cons_cases h
    · obtain ⟨m, hp⟩ := ih hw
      exact ⟨m, .nothing hs hp⟩
    · obtain ⟨m, hp⟩ := ih hw
      exact ⟨m, .up hp⟩
    · obtain ⟨m, hp⟩ := ih hw
      exact ⟨m, .directory down short entry hp⟩
    · obtain ⟨m, hp⟩ := ihn k (Nat.lt_succ_self k) hw
      exact ⟨m, .link down short entry hp⟩
    · exact absurd (hl ▸ hd) hno

/-- A way has a first part, and the rest starts from where that leads. -/
theorem Passes.split (h : fs.Passes n l (ps ++ qs) m l') :
    ∃ k x, fs.Passes n l ps k x ∧ fs.Passes k x qs m l' := by
  generalize hall : ps ++ qs = all at h
  induction h generalizing ps qs with
  | here =>
    obtain ⟨rfl, rfl⟩ := List.append_eq_nil_iff.1 hall
    exact ⟨_, _, .here, .here⟩
  | nothing hs h ih =>
    rcases List.append_eq_cons_iff.1 hall with ⟨rfl, rfl⟩ | ⟨ps, rfl, hrest⟩
    · exact ⟨_, _, .here, .nothing hs h⟩
    · obtain ⟨k, x, hp, hq⟩ := ih hrest.symm
      exact ⟨k, x, .nothing hs hp, hq⟩
  | up h ih =>
    rcases List.append_eq_cons_iff.1 hall with ⟨rfl, rfl⟩ | ⟨ps, rfl, hrest⟩
    · exact ⟨_, _, .here, .up h⟩
    · obtain ⟨k, x, hp, hq⟩ := ih hrest.symm
      exact ⟨k, x, .up hp, hq⟩
  | directory down short entry h ih =>
    rcases List.append_eq_cons_iff.1 hall with ⟨rfl, rfl⟩ | ⟨ps, rfl, hrest⟩
    · exact ⟨_, _, .here, .directory down short entry h⟩
    · obtain ⟨k, x, hp, hq⟩ := ih hrest.symm
      exact ⟨k, x, .directory down short entry hp, hq⟩
  | link down short entry h ih =>
    rcases List.append_eq_cons_iff.1 hall with ⟨rfl, rfl⟩ | ⟨ps, rfl, rfl⟩
    · exact ⟨_, _, .here, .link down short entry h⟩
    · obtain ⟨k, x, hp, hq⟩ := ih (List.append_assoc _ _ _)
      exact ⟨k, x, .link down short entry hp, hq⟩

/-- Pieces lead to one place only. -/
theorem Passes.unique (h : fs.Passes n l ps m l') {k : Nat} {x : Location}
    (h' : fs.Passes n l ps k x) : m = k ∧ l' = x := by
  induction h with
  | here =>
    cases h'
    exact ⟨rfl, rfl⟩
  | nothing hs _ ih =>
    cases h' with
    | nothing _ h' => exact ih h'
    | up => exact absurd hs (by decide)
    | directory down => exact absurd hs (by simp [down.1])
    | link down => exact absurd hs (by simp [down.1])
  | up _ ih =>
    cases h' with
    | nothing hs => exact absurd hs (by decide)
    | up h' => exact ih h'
    | directory down => exact absurd down (by decide)
    | link down => exact absurd down (by decide)
  | directory down _ entry _ ih =>
    cases h' with
    | nothing hs => exact absurd hs (by simp [down.1])
    | up => exact absurd down (by decide)
    | directory _ _ _ h' => exact ih h'
    | link _ _ entry' => simp [entry] at entry'
  | link down _ entry _ ih =>
    cases h' with
    | nothing hs => exact absurd hs (by simp [down.1])
    | up => exact absurd down (by decide)
    | directory _ _ entry' => simp [entry] at entry'
    | link _ _ entry' h' =>
      obtain rfl := Entry.link.inj (Option.some.inj (entry.symm.trans entry'))
      exact ih h'

variable (fs) in
theorem passes_saysNothing_iff (h : ∀ p ∈ ps, saysNothing p = true) :
    fs.Passes n l ps m l' ↔ n = m ∧ l = l' := by
  constructor
  · exact fun hp => (passes_saysNothing n l h).unique hp
  · rintro ⟨rfl, rfl⟩
    exact passes_saysNothing n l h

/-- Pieces at the end that say nothing change nothing. -/
theorem passes_append_saysNothing_iff {blanks : List String}
    (h : ∀ b ∈ blanks, saysNothing b = true) :
    fs.Passes n l (ps ++ blanks) m l' ↔ fs.Passes n l ps m l' := by
  constructor
  · intro hp
    obtain ⟨k, x, hinit, hrest⟩ := hp.split
    obtain ⟨rfl, rfl⟩ := (passes_saysNothing_iff fs h).1 hrest
    exact hinit
  · intro hp
    exact hp.append (passes_saysNothing m l' h)

/-- A way stays as long as the directories and links on it do. -/
theorem Passes.kept (hk : KeepsWays fs fs') (h : fs.Passes n l ps m l') :
    fs'.Passes n l ps m l' := by
  induction h with
  | here => exact .here
  | nothing hs _ ih => exact .nothing hs ih
  | up _ ih => exact .up ih
  | directory down short entry _ ih => exact .directory down short (hk.directories _ entry) ih
  | link down short entry _ ih => exact .link down short (hk.links _ _ entry) ih

/-- Without links a way leads where its text does. -/
theorem Passes.location (hn : fs.NoLinks) (h : fs.Passes n l ps m l') : l' = follow l ps := by
  induction h with
  | here => rfl
  | nothing hs _ ih => rw [Path.follow_cons_nothing _ _ hs, ih]
  | up _ ih => rw [Path.follow_cons_up, ih]
  | directory down _ _ _ ih => rw [Path.follow_cons_down _ _ down, ih]
  | link _ _ entry => exact absurd entry (hn _ _)

/-! ### Pieces that go down -/

/-- Without links below a location, a way that goes down from there spells where it leads. -/
theorem Passes.location_down (h : fs.Passes n l ps m l') (hdown : ∀ p ∈ ps, GoesDown p)
    (hn : fs.NoLinksBelow l) : l' = l ++ ps := by
  induction h with
  | here => simp
  | nothing hs => exact absurd hs (by simp [(hdown _ List.mem_cons_self).1])
  | up => exact absurd (hdown ".." List.mem_cons_self) (by decide)
  | @directory _ _ l _ piece rest _ _ _ _ ih =>
    have hbelow : fs.NoLinksBelow (l ++ [piece]) := fun rel target _ => by
      rw [List.append_assoc]
      exact hn _ target (by simp)
    rw [ih (fun p hp => hdown p (List.mem_cons_of_mem _ hp)) hbelow, List.append_assoc]
    rfl
  | link _ _ entry => exact absurd entry (hn _ _ (by simp))

/-- A name without a link leads to its location. -/
theorem location_of_walk_name {name : String} {place : Place} (hdown : GoesDown name)
    (hn : ∀ target, fs.entry? (l ++ [name]) ≠ some (.link target))
    (h : fs.walk last n l [name] = .ok place) : place.location = l ++ [name] := by
  obtain ⟨hs, -⟩ | ⟨rfl, -⟩ | ⟨-, -, ⟨-, hw⟩ | ⟨-, target, -, entry, -⟩ | ⟨-, -, hl, -⟩⟩ :=
    walk_cons_cases h
  · exact absurd hs (by simp [hdown.1])
  · exact absurd hdown (by decide)
  · rw [walk_nil] at hw
    cases hw
    rfl
  · exact absurd entry (hn target)
  · exact hl

end FileRoutes.FileSystem

namespace FileRoutes

/-! ### Joined paths -/

namespace Path

open FileSystem (saysNothing startOf)

/-- The pieces of a path come before those of a relative path that is joined to it, but for
empty ones. -/
theorem exists_join_segments {q : Path} (h : q.isAbsolute = false) (p : Path) :
    ∃ init blanks, (p.join q).segments = init ++ q.segments ∧ p.segments = init ++ blanks ∧
      (∀ b ∈ blanks, b = "") ∧ ∀ here, startOf (p.join q).text here = startOf p.text here := by
  unfold join
  rw [if_neg (by simp [h])]
  split
  · next hp =>
    refine ⟨[], [""], rfl, ?_, by decide, fun here => ?_⟩
    · rw [segments, hp]
      decide
    · rw [startOf_of_not_isAbsolute h, hp]
      rfl
  · next hp =>
    split
    · next hl =>
      obtain ⟨t, ht⟩ := exists_of_getLast_slash hl
      have hblank : t ++ "/" = t ++ "/" ++ "" := by simp
      refine ⟨Text.split '/' t, [""], ?_, ?_, by decide, fun here => startOf_append _ _ _ hp⟩
      · rw [segments, ht, Text.split_append]
        rfl
      · rw [segments, ht, hblank, Text.split_append]
        rfl
    · refine ⟨p.segments, [], ?_, (List.append_nil _).symm, by simp, fun here => ?_⟩
      · rw [segments, Text.split_append]
        rfl
      · rw [String.append_assoc]
        exact startOf_append _ _ _ hp

theorem segments_ne_nil (p : Path) : p.segments ≠ [] := Text.split_ne_nil p.text

end Path

namespace FileSystem

open FileRoutes.Path (GoesDown)

variable {fs fs' : FileSystem} {n m : Nat} {l l' : Location} {last : Bool} {p q : Path}

theorem PassesTo.unique (h : fs.PassesTo p l) (h' : fs.PassesTo p l') : l = l' := by
  obtain ⟨m, h⟩ := h
  obtain ⟨k, h'⟩ := h'
  exact (h.unique h').2

/-- A path that is passed is found where it leads. -/
theorem PassesTo.locate_eq (h : fs.PassesTo p l) (hc : checkPath p = .ok ()) :
    fs.locate true p = .ok (.found l) := by
  obtain ⟨m, hpasses⟩ := h
  rw [FileSystem.locate, hc]
  exact hpasses.walk

theorem PassesTo.kept (h : fs.PassesTo p l) (hk : KeepsWays fs fs') : fs'.PassesTo p l := by
  obtain ⟨m, h⟩ := h
  exact ⟨m, hk.here ▸ h.kept hk⟩

theorem PassesTo.eq_landing (h : fs.PassesTo p l) (hn : fs.NoLinks) :
    l = Path.landing fs.workingDirectory p := by
  obtain ⟨m, h⟩ := h
  exact h.location hn

variable (fs) in
/-- The pieces of a joined path start with a way to where the first path leads. -/
theorem passes_join_iff (hq : q.isAbsolute = false) (p : Path) :
    ∃ init, (p.join q).segments = init ++ q.segments ∧ ∀ m l,
      fs.Passes greatestLinks (startOf p.text fs.workingDirectory) p.segments m l ↔
        fs.Passes greatestLinks (startOf (p.join q).text fs.workingDirectory) init m l := by
  obtain ⟨init, blanks, hjoin, hp, hblanks, hstart⟩ := Path.exists_join_segments hq p
  refine ⟨init, hjoin, fun m l => ?_⟩
  rw [hstart, hp]
  exact passes_append_saysNothing_iff fun b hb => by rw [hblanks b hb]; decide

/-- A relative path is followed from where the path leads that it is joined to. -/
theorem PassesTo.locate_join (h : fs.PassesTo p l) (hq : q.isAbsolute = false) :
    ∃ m, ∀ last, fs.locate last (p.join q) =
      checkPath (p.join q) >>= fun _ => fs.walk last m l q.segments := by
  obtain ⟨m, h⟩ := h
  obtain ⟨init, hjoin, hiff⟩ := passes_join_iff fs hq p
  refine ⟨m, fun last => ?_⟩
  rw [locate, hjoin, ((hiff m l).1 h).walk_append q.segments_ne_nil]

theorem locate_ok_cases {place : Place} (h : fs.locate last p = .ok place) : checkPath p = .ok () ∧
    fs.walk last greatestLinks (startOf p.text fs.workingDirectory) p.segments = .ok place := by
  unfold locate at h
  cases hc : checkPath p with
  | error e => simp [hc, bind, Except.bind] at h
  | ok u => exact ⟨rfl, by simpa [hc, bind, Except.bind] using h⟩

theorem locate_of_resolve (h : fs.resolve p = .ok l) : fs.locate true p = .ok (.found l) := by
  unfold resolve at h
  cases hl : fs.locate true p with
  | error e => simp [hl, bind, Except.bind] at h
  | ok place =>
    cases place with
    | free m => simp [hl, bind, Except.bind, throw, throwThe, MonadExceptOf.throw] at h
    | found m =>
      simp only [hl, bind, Except.bind, pure, Except.pure, Except.ok.injEq] at h
      rw [h]

/-- A path that can be followed to a directory leads there with all of its pieces. -/
theorem passesTo_of_locate (h : fs.locate last p = .ok (.found l))
    (hd : fs.entry? l = some .directory) : fs.PassesTo p l :=
  passes_of_walk (locate_ok_cases h).2 hd

/-- The directory of a path leads where the pieces before its last name do. -/
theorem passesTo_directory_iff {init blanks : List String} {name : String}
    (h : p.segments = init ++ name :: blanks) (hname : saysNothing name = false)
    (hb : ∀ b ∈ blanks, saysNothing b = true) :
    fs.PassesTo p.directory l ↔
      ∃ m, fs.Passes greatestLinks (startOf p.text fs.workingDirectory) init m l := by
  cases init with
  | nil =>
    have hs : name ≠ "" := by rintro rfl; exact absurd hname (by decide)
    have hsegments : Path.segments ⟨""⟩ = [""] := by decide
    rw [Path.directory_of_name h hname hb, PassesTo, Path.startOf_of_segments h,
      if_neg fun e => hs e.1, hsegments]
    simp only [passes_saysNothing_iff fs (show ∀ b ∈ [""], saysNothing b = true by decide)]
    simp only [passes_saysNothing_iff fs (show ∀ b ∈ ([] : List String), _ by simp)]
    exact Iff.rfl
  | cons s init =>
    have hdirectory := Path.segments_directory (s := s) h hname hb
    obtain ⟨blanks', hinit, hblanks'⟩ := Path.exists_blanks init
    have hway : ∀ n x m, fs.Passes n x (s :: init) m l ↔
        fs.Passes n x (s :: Path.trimEnd init) m l := by
      intro n x m
      conv => lhs; rw [hinit, ← List.cons_append]
      exact passes_append_saysNothing_iff hblanks'
    simp only [PassesTo, Path.startOf_of_segments (s := s) h, hway]
    by_cases hs : s = "" ∧ Path.trimEnd init = []
    · rw [if_pos hs] at hdirectory
      rw [Path.startOf_of_segments hdirectory, hdirectory, hs.1, hs.2, if_pos ⟨rfl, by simp⟩,
        if_pos ⟨rfl, by simp⟩]
      simp only [passes_saysNothing_iff fs
        (show ∀ b ∈ ["", ""], saysNothing b = true by decide)]
      simp only [passes_saysNothing_iff fs
        (show ∀ b ∈ [""], saysNothing b = true by decide)]
    · rw [if_neg hs] at hdirectory
      rw [Path.startOf_of_segments hdirectory, hdirectory]
      by_cases he : s = ""
      · have ht : Path.trimEnd init ≠ [] := fun ht => hs ⟨he, ht⟩
        simp [he, ht]
      · simp [he]

end FileSystem

end FileRoutes
