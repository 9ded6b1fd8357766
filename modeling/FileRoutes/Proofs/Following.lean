import FileRoutes.FileSystem.Reading
import FileRoutes.Proofs.Walking

/-!
# Following paths without links

In a file system without links a path that can be followed leads to where its text leads, and
it goes on leading there as long as the directories on its way stay. So what is read at a path
is what stands at one location that does not depend on the file system.

## The model

* `NoLinks` — a file system without links.
* `Leads` — where pieces lead in such a file system, one rule for each kind of piece.
* `KeepsDirectories` — another file system that starts paths at the same place and has every
  directory of the first one.

## What is proved

* `walk_eq_ok_iff` — the rules and the procedure agree.
* `Leads.location` — where pieces lead is where they lead by their text.
* `readText_kept` — a file that stays where it is, in directories that stay, is read alike.
-/

namespace FileRoutes.FileSystem

open FileRoutes.Path (GoesDown follow landing)

/-- No entry is a link. -/
def NoLinks (fs : FileSystem) : Prop := ∀ l target, fs.entry? l ≠ some (.link target)

/-- Where pieces lead from a directory in a file system without links. -/
inductive Leads (fs : FileSystem) : Location → List String → Place → Prop
  /-- No piece is left. -/
  | here {l : Location} : Leads fs l [] (.found l)
  /-- A piece says nothing. -/
  | nothing {l : Location} {piece : String} {rest : List String} {place : Place}
      (nothing : saysNothing piece = true) (h : Leads fs l rest place) :
      Leads fs l (piece :: rest) place
  /-- One directory up. -/
  | up {l : Location} {rest : List String} {place : Place} (h : Leads fs l.dropLast rest place) :
      Leads fs l (".." :: rest) place
  /-- A directory. -/
  | directory {l : Location} {piece : String} {rest : List String} {place : Place}
      (down : GoesDown piece) (short : ¬ greatestName < piece.utf8ByteSize)
      (entry : fs.entry? (l ++ [piece]) = some .directory)
      (h : Leads fs (l ++ [piece]) rest place) : Leads fs l (piece :: rest) place
  /-- A file, at the end. -/
  | file {l : Location} {piece : String} {content : Content} (down : GoesDown piece)
      (short : ¬ greatestName < piece.utf8ByteSize)
      (entry : fs.entry? (l ++ [piece]) = some (.file content)) :
      Leads fs l [piece] (.found (l ++ [piece]))
  /-- A free name, at the end. -/
  | free {l : Location} {piece : String} (down : GoesDown piece)
      (short : ¬ greatestName < piece.utf8ByteSize) (entry : fs.entry? (l ++ [piece]) = none) :
      Leads fs l [piece] (.free (l ++ [piece]))

/-- Every directory is still there, and relative paths start where they did. -/
structure KeepsDirectories (fs fs' : FileSystem) : Prop where
  /-- Where relative paths start. -/
  here : fs'.workingDirectory = fs.workingDirectory
  /-- Every directory is kept. -/
  directories : ∀ l, fs.entry? l = some .directory → fs'.entry? l = some .directory

variable {fs fs' : FileSystem}

/-! ### Walks -/

theorem leads_of_walk (h : fs.NoLinks) {last : Bool} {links : Nat} {here : Location}
    {pieces : List String} {place : Place} (hw : fs.walk last links here pieces = .ok place) :
    fs.Leads here pieces place := by
  induction pieces generalizing here with
  | nil =>
    rw [walk_nil] at hw
    obtain rfl := Except.ok.inj hw
    exact .here
  | cons piece rest ih =>
    obtain hs | rfl | ⟨down, long⟩ | ⟨down, short⟩ := step_cases piece
    · exact .nothing hs (ih ((walk_nothing hs).symm.trans hw))
    · exact .up (ih (walk_up.symm.trans hw))
    · rw [walk_of_long down long] at hw
      cases hw
    · cases entry : fs.entry? (here ++ [piece]) with
      | none =>
        rw [walk_of_none down short entry] at hw
        split at hw
        · next hrest =>
          subst hrest
          obtain rfl := Except.ok.inj hw
          exact .free down short entry
        · cases hw
      | some e =>
        cases e with
        | directory =>
          exact .directory down short entry (ih ((walk_of_directory down short entry).symm.trans hw))
        | file content =>
          rw [walk_of_file down short entry] at hw
          split at hw
          · next hrest =>
            subst hrest
            obtain rfl := Except.ok.inj hw
            exact .file down short entry
          · cases hw
        | link target => exact absurd entry (h _ target)

theorem walk_of_leads {last : Bool} {links : Nat} {here : Location} {pieces : List String}
    {place : Place} (hl : fs.Leads here pieces place) :
    fs.walk last links here pieces = .ok place := by
  induction hl with
  | here => exact walk_nil
  | nothing hs _ ih => rw [walk_nothing hs, ih]
  | up _ ih => rw [walk_up, ih]
  | directory down short entry _ ih => rw [walk_of_directory down short entry, ih]
  | file down short entry => rw [walk_of_file down short entry, if_pos rfl]
  | free down short entry => rw [walk_of_none down short entry, if_pos rfl]

/-- Without links, walking finds exactly where pieces lead. -/
theorem walk_eq_ok_iff (h : fs.NoLinks) (last : Bool) (links : Nat) {here : Location}
    {pieces : List String} {place : Place} :
    fs.walk last links here pieces = .ok place ↔ fs.Leads here pieces place :=
  ⟨leads_of_walk h, walk_of_leads⟩

/-- Where pieces lead is where they lead by their text. -/
theorem Leads.location {here : Location} {pieces : List String} {place : Place}
    (h : fs.Leads here pieces place) : place.location = follow here pieces := by
  induction h with
  | here => rfl
  | nothing hs _ ih => rw [Path.follow_cons_nothing _ _ hs, ih]
  | up _ ih => rw [Path.follow_cons_up, ih]
  | directory down _ _ _ ih => rw [Path.follow_cons_down _ _ down, ih]
  | file down => rw [Path.follow_cons_down _ _ down]; rfl
  | free down => rw [Path.follow_cons_down _ _ down]; rfl

/-- Pieces with something behind them lead through directories only, and what is behind them
leads on from where they lead. -/
theorem Leads.append (hk : KeepsDirectories fs fs') {here there : Location}
    {pieces rest : List String} {place : Place} (h : fs.Leads here (pieces ++ [""]) (.found there))
    (hr : fs'.Leads there rest place) : fs'.Leads here (pieces ++ rest) place := by
  generalize hp : pieces ++ [""] = all at h
  generalize hf : Place.found there = found at h
  induction h generalizing pieces with
  | here => simp at hp
  | @nothing l piece rest' place' hs hl ih =>
    cases pieces with
    | nil =>
      obtain ⟨-, rfl⟩ := List.cons_eq_cons.1 hp
      cases hl with
      | here =>
        obtain rfl := Place.found.inj hf
        exact hr
    | cons q qs =>
      obtain ⟨rfl, hrest⟩ := List.cons_eq_cons.1 hp
      exact .nothing hs (ih hrest hf)
  | @up l rest' place' hl ih =>
    cases pieces with
    | nil => simp at hp
    | cons q qs =>
      obtain ⟨rfl, hrest⟩ := List.cons_eq_cons.1 hp
      exact .up (ih hrest hf)
  | @directory l piece rest' place' down short entry hl ih =>
    cases pieces with
    | nil =>
      obtain ⟨rfl, -⟩ := List.cons_eq_cons.1 hp
      exact absurd down (by decide)
    | cons q qs =>
      obtain ⟨rfl, hrest⟩ := List.cons_eq_cons.1 hp
      exact .directory down short (hk.directories _ entry) (ih hrest hf)
  | file down short entry =>
    cases pieces with
    | nil =>
      obtain ⟨rfl, -⟩ := List.cons_eq_cons.1 hp
      exact absurd down (by decide)
    | cons q qs => simp at hp
  | free => cases hf

/-- A file that pieces lead to is led to again while it and the directories stay. -/
theorem Leads.kept (hk : KeepsDirectories fs fs') {here there : Location} {pieces : List String}
    {content : Content} (h : fs.Leads here pieces (.found there))
    (hfile : fs'.entry? there = some (.file content)) : fs'.Leads here pieces (.found there) := by
  generalize hf : Place.found there = found at h
  induction h with
  | here =>
    obtain rfl := Place.found.inj hf
    exact .here
  | nothing hs _ ih => exact .nothing hs (ih hf)
  | up _ ih => exact .up (ih hf)
  | directory down short entry _ ih => exact .directory down short (hk.directories _ entry) (ih hf)
  | file down short _ =>
    obtain rfl := Place.found.inj hf
    exact .file down short hfile
  | free => cases hf

/-! ### Paths -/

/-- A path that is located is well-formed, and its pieces lead to its place. -/
theorem locate_eq_ok_iff (h : fs.NoLinks) {last : Bool} {p : Path} {place : Place} :
    fs.locate last p = .ok place ↔
      checkPath p = .ok () ∧ fs.Leads (startOf p.text fs.workingDirectory) p.segments place := by
  rw [← walk_eq_ok_iff h last greatestLinks]
  unfold locate
  cases checkPath p with
  | error e => simp [bind, Except.bind]
  | ok u => simp [bind, Except.bind]

theorem locate_location (h : fs.NoLinks) {last : Bool} {p : Path} {place : Place}
    (hp : fs.locate last p = .ok place) : place.location = landing fs.workingDirectory p :=
  ((locate_eq_ok_iff h).1 hp).2.location

/-- A text is read exactly where the path leads to a file that holds it. -/
theorem readText_eq_ok_iff (h : fs.NoLinks) {p : Path} {text : String} :
    fs.readText p = .ok text ↔
      fs.locate true p = .ok (.found (landing fs.workingDirectory p)) ∧
        fs.entry? (landing fs.workingDirectory p) = some (.file (.text text)) := by
  cases hl : fs.locate true p with
  | error e => simp [readText, entryAt, resolve, hl, bind, Except.bind]
  | ok place =>
    have hplace := locate_location h hl
    cases place with
    | free l => simp [readText, entryAt, resolve, hl, bind, Except.bind, throw, throwThe,
        MonadExceptOf.throw]
    | found l =>
      obtain rfl : l = landing fs.workingDirectory p := hplace
      cases he : fs.entry? (landing fs.workingDirectory p) with
      | none => simp [readText, entryAt, resolve, hl, he, bind, Except.bind, pure, Except.pure,
          throw, throwThe, MonadExceptOf.throw]
      | some e =>
        cases e with
        | directory => simp [readText, entryAt, resolve, hl, he, bind, Except.bind, pure,
            Except.pure, throw, throwThe, MonadExceptOf.throw]
        | link target => exact absurd he (h _ target)
        | file content =>
          cases content <;> simp [readText, entryAt, resolve, hl, he, bind, Except.bind, pure,
            Except.pure, throw, throwThe, MonadExceptOf.throw]

/-- A file that stays where it is, in directories that stay, is read alike. -/
theorem readText_kept (h : fs.NoLinks) (h' : fs'.NoLinks) (hk : KeepsDirectories fs fs')
    {p : Path} {text : String} (hr : fs.readText p = .ok text)
    (hfile : fs'.entry? (landing fs.workingDirectory p) = some (.file (.text text))) :
    fs'.readText p = .ok text := by
  obtain ⟨hlocate, -⟩ := (readText_eq_ok_iff h).1 hr
  obtain ⟨hcheck, hleads⟩ := (locate_eq_ok_iff h).1 hlocate
  refine (readText_eq_ok_iff h').2 ⟨(locate_eq_ok_iff h').2 ⟨hcheck, ?_⟩, ?_⟩
  · rw [hk.here]
    exact hleads.kept hk hfile
  · rw [hk.here]
    exact hfile

/-! ### Endings -/

/-- The pieces of a path up to its last name or dots. -/
def core (p : Path) : List String := (p.segments.reverse.dropWhile fun s => s = "").reverse

theorem exists_segments_core (p : Path) :
    ∃ blanks, p.segments = core p ++ blanks ∧ ∀ b ∈ blanks, b = "" := by
  refine ⟨(p.segments.reverse.takeWhile fun s => s = "").reverse, ?_, fun b hb => ?_⟩
  · rw [core, ← List.reverse_append, List.takeWhile_append_dropWhile, List.reverse_reverse]
  · have hall := List.all_takeWhile (p := fun s => decide (s = "")) (l := p.segments.reverse)
    simpa using List.all_eq_true.1 hall b (List.mem_reverse.1 hb)

theorem ne_empty_of_getLast_core {p : Path} {last : String} (h : (core p).getLast? = some last) :
    last ≠ "" := by
  rintro rfl
  rw [core, List.getLast?_reverse] at h
  have hnot := List.head?_dropWhile_not (fun s : String => decide (s = "")) p.segments.reverse
  rw [h] at hnot
  simp at hnot

theorem ending_of_checkPath {p : Path} {x : Error} (hc : checkPath p = .error x) :
    fs.ending p = .error x := by
  unfold ending
  simp only [hc, bind, Except.bind]

section ends

variable {p : Path} (hc : checkPath p = .ok ())
include hc

theorem ending_of_none (hl : (core p).getLast? = none) : fs.ending p =
    .ok ⟨startOf p.text fs.workingDirectory, none,
      decide ((core p).length < p.segments.length)⟩ := by
  unfold ending
  rw [show (p.segments.reverse.dropWhile fun s => s = "").reverse = core p from rfl]
  simp only [hc, hl, bind, Except.bind]
  rfl

variable {last : String} (hl : (core p).getLast? = some last)
include hl

theorem ending_of_walk {x : Error}
    (h : fs.walk true greatestLinks (startOf p.text fs.workingDirectory)
      ((core p).dropLast ++ [""]) = .error x) : fs.ending p = .error x := by
  unfold ending
  rw [show (p.segments.reverse.dropWhile fun s => s = "").reverse = core p from rfl]
  simp only [hc, hl, h, bind, Except.bind]

theorem ending_of_free {l : Location}
    (h : fs.walk true greatestLinks (startOf p.text fs.workingDirectory)
      ((core p).dropLast ++ [""]) = .ok (.free l)) : fs.ending p = .error .notFound := by
  unfold ending
  rw [show (p.segments.reverse.dropWhile fun s => s = "").reverse = core p from rfl]
  simp only [hc, hl, h, bind, Except.bind]
  rfl

/-- What the end of a path is, where the pieces before the last name or dots lead to a
directory. -/
theorem ending_of_found {directory : Location}
    (h : fs.walk true greatestLinks (startOf p.text fs.workingDirectory)
      ((core p).dropLast ++ [""]) = .ok (.found directory)) :
    fs.ending p =
      if last = "." ∨ last = ".." then
        .ok ⟨directory, none, decide ((core p).length < p.segments.length)⟩
      else if greatestName < last.utf8ByteSize then .error .nameTooLong
      else .ok ⟨directory, some last, decide ((core p).length < p.segments.length)⟩ := by
  unfold ending
  rw [show (p.segments.reverse.dropWhile fun s => s = "").reverse = core p from rfl]
  simp only [hc, hl, h, bind, Except.bind]
  split
  · rfl
  · split <;> rfl

end ends

/-- What a path with a last name passed on the way to its end. -/
theorem ending_eq_ok {p : Path} {e : Ending} {name : String} (he : fs.ending p = .ok e)
    (hn : e.name = some name) :
    checkPath p = .ok () ∧ (core p).getLast? = some name ∧
      fs.walk true greatestLinks (startOf p.text fs.workingDirectory) ((core p).dropLast ++ [""]) =
        .ok (.found e.directory) ∧
      ¬ (name = "." ∨ name = "..") ∧ ¬ greatestName < name.utf8ByteSize ∧
      e.slash = decide ((core p).length < p.segments.length) := by
  cases hc : checkPath p with
  | error x =>
    rw [ending_of_checkPath hc] at he
    cases he
  | ok u =>
    cases hl : (core p).getLast? with
    | none =>
      rw [ending_of_none hc hl] at he
      obtain rfl := Except.ok.inj he
      cases hn
    | some last =>
      cases hw : fs.walk true greatestLinks (startOf p.text fs.workingDirectory)
          ((core p).dropLast ++ [""]) with
      | error x =>
        rw [ending_of_walk hc hl hw] at he
        cases he
      | ok place =>
        cases place with
        | free l =>
          rw [ending_of_free hc hl hw] at he
          cases he
        | found directory =>
          rw [ending_of_found hc hl hw] at he
          split at he
          · obtain rfl := Except.ok.inj he
            cases hn
          · next hdots =>
            split at he
            · cases he
            · next hshort =>
              obtain rfl := Except.ok.inj he
              obtain rfl : last = name := Option.some.inj hn
              exact ⟨rfl, rfl, rfl, hdots, hshort, rfl⟩

/-- The pieces of a path with a last name: those before it lead to its directory, and only blanks
stand behind it. -/
theorem ending_segments {p : Path} {e : Ending} {name : String} (he : fs.ending p = .ok e)
    (hn : e.name = some name) :
    ∃ init blanks, p.segments = init ++ name :: blanks ∧ (∀ b ∈ blanks, b = "") ∧
      (e.slash = false → blanks = []) ∧ GoesDown name ∧ ¬ greatestName < name.utf8ByteSize ∧
      checkPath p = .ok () ∧
      fs.walk true greatestLinks (startOf p.text fs.workingDirectory) (init ++ [""]) =
        .ok (.found e.directory) := by
  obtain ⟨hcheck, hlast, hwalk, hdots, hshort, hslash⟩ := ending_eq_ok he hn
  obtain ⟨blanks, hsegments, hblanks⟩ := exists_segments_core p
  obtain ⟨init, hinit⟩ := List.getLast?_eq_some_iff.1 hlast
  have hne := ne_empty_of_getLast_core hlast
  rw [hinit, List.dropLast_concat] at hwalk
  rw [hinit] at hsegments hslash
  have hdown : GoesDown name := by
    refine ⟨?_, fun e => hdots (.inr e)⟩
    simpa [saysNothing] using ⟨hne, fun e => hdots (.inl e)⟩
  refine ⟨init, blanks, by simpa using hsegments, hblanks, fun hs => ?_, hdown, hshort, hcheck,
    hwalk⟩
  have hle : ¬ (init ++ [name]).length < p.segments.length :=
    of_decide_eq_false (hslash.symm.trans hs)
  simp only [hsegments, List.length_append] at hle
  exact List.eq_nil_of_length_eq_zero (by omega)

/-- The last name of a path stands in the directory that the pieces before it lead to. -/
theorem ending_name (h : fs.NoLinks) {p : Path} {e : Ending} {name : String}
    (he : fs.ending p = .ok e) (hn : e.name = some name) :
    ∃ init blanks, p.segments = init ++ name :: blanks ∧ (e.slash = false → blanks = []) ∧
      GoesDown name ∧ ¬ greatestName < name.utf8ByteSize ∧ checkPath p = .ok () ∧
      fs.Leads (startOf p.text fs.workingDirectory) (init ++ [""]) (.found e.directory) ∧
      e.directory ++ [name] = landing fs.workingDirectory p := by
  obtain ⟨init, blanks, hsegments, hblanks, hslash, hdown, hshort, hcheck, hwalk⟩ :=
    ending_segments he hn
  have hleads := (walk_eq_ok_iff h _ _).1 hwalk
  have hdir : e.directory = _ := hleads.location
  have hnothing : ∀ b ∈ blanks, saysNothing b = true := fun b hb => by
    rw [hblanks b hb]
    decide
  refine ⟨init, blanks, hsegments, hslash, hdown, hshort, hcheck, hleads, ?_⟩
  rw [hdir, Path.landing, hsegments, Path.follow_append, Path.follow_append,
    Path.follow_cons_down _ _ hdown, Path.follow_saysNothing hnothing]
  rfl

end FileRoutes.FileSystem
