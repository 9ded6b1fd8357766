import FileRoutes.Proofs.Accounts
import FileRoutes.Proofs.Directories

/-!
# Scans come to an end

A scan goes into every directory that it meets, and it follows links. Nothing keeps it from going
round in a circle: it does not remember where it has been, and a link may lead back to a directory
above. What ends it is that the system refuses a path with too many links on its way. Every descent
either goes down to a child in the tree or uses up a link of those that a path may still have; the
first can happen only as often in a row as the tree is deep, the second only as often as there are
links.

Nothing but that is assumed of the system. It may refuse whatever it likes besides, and the number
of links is any number; so what is met is described here without a bound on the depth.

## The model

* `FileSystem.PassesWithin` — where a path leads with no more than some number of links.
* `FileSystem.Descent` — the two ways down: to a child, or through a link.
* `FileSystem.System`, `System.Limited` — what a system answers, and that it grants nothing behind
  too many links.
* `Manifest.Enters` — a scan goes from one directory into another one.
* `Manifest.Meets` — what is met in a directory, as deep as it goes.
* `Manifest.Ends` — that a scan ends, with the reasons why.

## What is proved

* `Path.join_join` — paths can be joined in any order.
* `PassesWithin.descent` — a name in a directory leads on by one of the ways down.
* `Descent.rank_lt` — both of them lower the rank of a location.
* `wellFounded_enters`, `length_le_of_isChain` — so descents end, after a bounded number.
* `exists_meets`, `Meets.unique` — what is met is there, and determined.
* `meets_visits` — the visits of a scan are what is met.
-/

namespace FileRoutes

/-! ### Joined paths -/

namespace Path

open FileSystem (IsName)

/-- What stands before a relative path that is joined to a path. -/
def opening (p : Path) : String :=
  if p.text = "" then ""
  else if p.text.toList.getLast? = some '/' then p.text
  else p.text ++ "/"

section join

variable {p q : Path}

theorem join_of_relative (hq : q.isAbsolute = false) (p : Path) :
    p.join q = ⟨p.opening ++ q.text⟩ := by
  unfold join opening
  rw [if_neg (by simp [hq])]
  split
  · rw [String.empty_append]
  · split <;> rfl

theorem opening_of_slash (h : p.text.toList.getLast? = some '/') : p.opening = p.text := by
  unfold opening
  split
  · next hempty => exact hempty.symm
  · rfl

theorem opening_cases (p : Path) : p.opening = "" ∨ p.opening.toList.getLast? = some '/' := by
  unfold opening
  split
  · exact .inl rfl
  · split
    · next hl => exact .inr hl
    · right
      simp

/-- What stands before a path that is joined to a joined path. -/
theorem opening_join (hp : p.isAbsolute = false) (root : Path) :
    (root.join p).opening = root.opening ++ p.opening := by
  rw [join_of_relative hp]
  by_cases hempty : p.text = ""
  · have hnothing : p.opening = "" := if_pos hempty
    rw [hnothing, hempty, String.append_empty]
    rcases root.opening_cases with hroot | hroot
    · rw [hroot]
      rfl
    · exact opening_of_slash hroot
  · have hne : root.opening ++ p.text ≠ "" := by
      intro h
      apply hempty
      simpa using (String.append_eq_empty_iff.1 h).2
    have hlast : (root.opening ++ p.text).toList.getLast? = p.text.toList.getLast? := by
      rw [String.toList_append, List.getLast?_append_of_ne_nil]
      simpa using hempty
    generalize root.opening = start at hne hlast
    unfold opening
    rw [if_neg hempty, if_neg hne, hlast]
    split
    · rfl
    · exact String.append_assoc

/-- Paths are joined in any order. -/
theorem join_join (hq : q.isAbsolute = false) (root p : Path) :
    (root.join p).join q = root.join (p.join q) := by
  by_cases hp : p.isAbsolute = true
  · have hpq : (p.join q).isAbsolute = true := isAbsolute_join hp q
    have hleft : root.join p = p := if_pos hp
    have hright : root.join (p.join q) = p.join q := if_pos hpq
    rw [hleft, hright]
  · have hp : p.isAbsolute = false := by simpa using hp
    have hpq : (p.join q).isAbsolute = false := (isAbsolute_join_of_relative hq p).trans hp
    rw [join_of_relative hq, join_of_relative hpq, opening_join hp, join_of_relative hq,
      String.append_assoc]

end join

section child

variable {name : String} (h : IsName name)
include h

theorem not_isAbsolute_of_isName : isAbsolute ⟨name⟩ = false :=
  not_isAbsolute_ofNames (l := [name]) (by simpa using h)

theorem segments_of_isName : segments ⟨name⟩ = [name] :=
  segments_ofNames (l := [name]) (by simp) (by simpa using h)

/-- The child of a directory, seen through a folder. -/
theorem join_child (root p : Path) : root.join (p.child name) = (root.join p).child name :=
  (join_join (not_isAbsolute_of_isName h) root p).symm

/-- The path of a child is longer. -/
theorem utf8ByteSize_lt_child (p : Path) :
    p.text.utf8ByteSize < (p.child name).text.utf8ByteSize := by
  have hopening : p.text.utf8ByteSize ≤ p.opening.utf8ByteSize := by
    unfold opening
    split
    · next hempty =>
      rw [hempty]
    · split
      · exact le_rfl
      · rw [String.utf8ByteSize_append]
        omega
  have hname : name.utf8ByteSize ≠ 0 := by
    rw [ne_eq, String.utf8ByteSize_eq_zero_iff]
    rintro rfl
    exact absurd h.down (by decide)
  rw [child, join_of_relative (not_isAbsolute_of_isName h), String.utf8ByteSize_append]
  dsimp only
  omega

end child

end Path

/-! ### Ways down -/

namespace FileSystem

/-- The pieces of a path lead to a location, with no more than `n` links on the way; `m` of them
are left. -/
def PassesWithin (fs : FileSystem) (n : Nat) (p : Path) (m : Nat) (l : Location) : Prop :=
  fs.Passes n (startOf p.text fs.workingDirectory) p.segments m l

/-- How deep the tree is. -/
def height (fs : FileSystem) : Nat := (fs.entries.map fun m => m.1.length).max?.getD 0

/-- A name in a directory leads down to a directory; the numbers are those of the links that may
still be followed before and behind it. -/
inductive Descent (fs : FileSystem) (name : String) :
    Nat → Location → Nat → Location → Prop
  /-- It leads to a child in the tree. -/
  | child {m : Nat} {l : Location} (entry : fs.entry? (l ++ [name]) = some .directory) :
      Descent fs name m l m (l ++ [name])
  /-- It is a link, which is used up. -/
  | link {m m' : Nat} {l l' : Location} {target : String}
      (entry : fs.entry? (l ++ [name]) = some (.link target)) (fewer : m' < m) :
      Descent fs name m l m' l'

/-- How far it can still go down from a location: the links that are left come first, and then how
deep the tree is below. -/
def rank (fs : FileSystem) (m : Nat) (l : Location) : Nat :=
  m * (fs.height + 1) + (fs.height - l.length)

variable {fs : FileSystem} {n m m' : Nat} {l l' : Location} {ps : List String} {p : Path}
  {name : String}

/-- Nothing is deeper than the tree. -/
theorem length_le_height {e : Entry} (h : fs.entry? l = some e) : l.length ≤ fs.height := by
  by_cases hl : l = []
  · rw [hl]
    exact Nat.zero_le _
  · have hmem := mem_entries_of_entry hl h
    exact List.le_max?_getD_of_mem (List.mem_map_of_mem (f := fun m => m.1.length) hmem)

/-- Following a way uses up links, if anything. -/
theorem Passes.le (h : fs.Passes n l ps m l') : m ≤ n := by
  induction h with
  | here => exact le_rfl
  | nothing _ _ ih => exact ih
  | up _ ih => exact ih
  | directory _ _ _ _ ih => exact ih
  | link _ _ _ _ ih => exact Nat.le_succ_of_le ih

/-- A name in a directory leads on by one of the ways down. -/
theorem PassesWithin.descent (hname : IsName name) (h : fs.PassesWithin n p m l)
    (h' : fs.PassesWithin n (p.child name) m' l') : fs.Descent name m l m' l' := by
  obtain ⟨init, blanks, hjoin, hp, hblanks, hstart⟩ :=
    Path.exists_join_segments (Path.not_isAbsolute_of_isName hname) p
  -- Both ways begin alike, as blanks at the end lead nowhere.
  have hnothing : ∀ b ∈ blanks, saysNothing b = true := by
    intro b hb
    rw [hblanks b hb]
    decide
  unfold PassesWithin at h h'
  rw [hp, passes_append_saysNothing_iff hnothing] at h
  rw [Path.child, hjoin, hstart, Path.segments_of_isName hname] at h'
  obtain ⟨k, x, hinit, hrest⟩ := h'.split
  obtain ⟨rfl, rfl⟩ := h.unique hinit
  cases hrest with
  | nothing hs => exact absurd hs (by simp [hname.down.1])
  | up => exact absurd hname.down (by decide)
  | directory _ _ entry rest =>
    cases rest
    exact .child entry
  | link _ _ entry rest => exact .link entry (Nat.lt_succ_of_le rest.le)

/-- Both ways down lower the rank: a child is deeper in the tree, and a link that is used up
outweighs how deep the tree is. -/
theorem Descent.rank_lt (h : fs.Descent name m l m' l') : fs.rank m' l' < fs.rank m l := by
  unfold rank
  cases h with
  | child entry =>
    have hdeep := length_le_height entry
    rw [List.length_append, List.length_singleton] at hdeep ⊢
    omega
  | link _ fewer =>
    have hlinks : (m' + 1) * (fs.height + 1) ≤ m * (fs.height + 1) :=
      Nat.mul_le_mul_right _ fewer
    rw [Nat.add_mul, Nat.one_mul] at hlinks
    omega

/-- With no more than `n` links there is a greatest rank. -/
theorem PassesWithin.rank_lt (h : fs.PassesWithin n p m l) :
    fs.rank m l < (n + 1) * (fs.height + 1) := by
  have hlinks : m * (fs.height + 1) ≤ n * (fs.height + 1) := Nat.mul_le_mul_right _ h.le
  rw [Nat.add_mul, Nat.one_mul]
  unfold rank
  omega

/-! ### Systems -/

/-- What a system answers when it is asked for the names in a directory, and whether a path leads
to one. -/
structure System where
  /-- The names in a directory. -/
  listNames : Path → Except Error (List String)
  /-- Whether a path leads to a directory. -/
  isDirectory : Path → Except Error Bool

/-- The answers of a file system. -/
def system (fs : FileSystem) : System := ⟨fs.listNames, fs.isDirectory⟩

/-- A system that grants a path only where the path leads with no more than `n` links. -/
structure System.Limited (s : System) (fs : FileSystem) (n : Nat) : Prop where
  /-- The names in a directory are those of its entries. -/
  listed : ∀ p names, s.listNames p = .ok names →
    ∃ m l, fs.PassesWithin n p m l ∧ ∀ name ∈ names, name ∈ fs.names l
  /-- A directory is where its path leads. -/
  entered : ∀ p, s.isDirectory p = .ok true → ∃ m l, fs.PassesWithin n p m l

/-- A path that is followed is not too long. -/
theorem utf8ByteSize_lt_of_checkPath (h : checkPath p = .ok ()) :
    p.text.utf8ByteSize < pathBound := by
  unfold checkPath at h
  split at h
  · cases h
  · split at h
    · cases h
    · split at h
      · cases h
      · next hshort => exact Nat.lt_of_not_le hshort

/-- A file system follows no more links than there may be on the way of a path. -/
theorem limited_system (fs : FileSystem) : fs.system.Limited fs greatestLinks where
  listed p names h := by
    obtain ⟨l, hr, hd, rfl⟩ := listNames_eq_ok h
    obtain ⟨m, hm⟩ := passesTo_of_locate (locate_of_resolve hr) hd
    exact ⟨m, l, hm, fun _ hname => hname⟩
  entered p h := by
    obtain ⟨-, l, m, hm⟩ := passesTo_of_isDirectory h
    exact ⟨m, l, hm⟩

end FileSystem

/-! ### Descents of a scan -/

namespace Manifest

open FileSystem (System PassesWithin IsName greatestLinks pathBound)

/-- A scan of a folder goes from a directory into one that it finds there; both are told by the
paths that lead to them from the folder. -/
def Enters (s : System) (root p q : Path) : Prop :=
  ∃ names name, s.listNames (root.join p) = .ok names ∧ name ∈ names ∧ q = p.child name ∧
    s.isDirectory (root.join q) = .ok true

/-- What is met in a directory of a folder and below, as deep as it goes. -/
inductive Meets (s : System) (root : Path) : Path → List Visit → Prop
  /-- A directory that cannot be listed is all that is met. -/
  | unlisted {p : Path} {e : FileSystem.Error} (fails : s.listNames (root.join p) = .error e) :
      Meets s root p [.unreadable (root.join p) e]
  /-- The names in a directory are gone through in order, and directories are entered. -/
  | listed {p : Path} {names : List String} {below : String → List Visit}
      (lists : s.listNames (root.join p) = .ok names)
      (refused : ∀ name ∈ names, ∀ e, s.isDirectory (root.join (p.child name)) = .error e →
        below name = [.unreadable (root.join (p.child name)) e])
      (file : ∀ name ∈ names, s.isDirectory (root.join (p.child name)) = .ok false →
        below name = [.file (p.child name)])
      (entered : ∀ name ∈ names, s.isDirectory (root.join (p.child name)) = .ok true →
        Meets s root (p.child name) (below name)) :
      Meets s root p (names.flatMap below)

/-- A scan of a folder ends, because of the tree and of the links that a path may have. -/
structure Ends (s : System) (fs : FileSystem) (n : Nat) (root : Path) : Prop where
  /-- Every descent goes to a child in the tree, or it uses up a link. -/
  descents : ∀ p q, Enters s root p q → ∃ name m l m' l', q = p.child name ∧
    fs.PassesWithin n (root.join p) m l ∧ fs.PassesWithin n (root.join q) m' l' ∧
      fs.Descent name m l m' l'
  /-- There is a bound on the number of directories that are entered one from the other. -/
  bounded : ∀ ps : List Path, ps.IsChain (Enters s root) →
    ps.length ≤ (n + 1) * (fs.height + 1)
  /-- What is met in a directory is a list, and there is only one. -/
  meets : ∀ p, ∃ vs, ∀ ws, Meets s root p ws ↔ ws = vs

variable {s : System} {fs : FileSystem} {n m : Nat} {l : Location} {root p q : Path}
  {vs ws : List Visit}

/-- What is met is determined. -/
theorem Meets.unique (h : Meets s root p vs) (h' : Meets s root p ws) : ws = vs := by
  induction h generalizing ws with
  | unlisted fails =>
    cases h' with
    | unlisted fails' =>
      obtain rfl := Except.error.inj (fails.symm.trans fails')
      rfl
    | listed lists => exact absurd (fails.symm.trans lists) (by simp)
  | listed lists refused file entered ih =>
    cases h' with
    | unlisted fails => exact absurd (lists.symm.trans fails) (by simp)
    | listed lists' refused' file' entered' =>
      obtain rfl := Except.ok.inj (lists.symm.trans lists')
      apply List.flatMap_congr
      intro name hname
      cases hd : s.isDirectory (root.join (Path.child _ name)) with
      | error e => rw [refused name hname e hd, refused' name hname e hd]
      | ok directory =>
        cases directory with
        | false => rw [file name hname hd, file' name hname hd]
        | true => exact ih name hname hd (entered' name hname hd)

section limited

variable (h : fs.IsTree) (hs : s.Limited fs n)
include h hs

/-- Every descent goes to a child in the tree, or it uses up a link. -/
theorem Enters.exists_descent (he : Enters s root p q) : ∃ name m l m' l', q = p.child name ∧
    fs.PassesWithin n (root.join p) m l ∧ fs.PassesWithin n (root.join q) m' l' ∧
      fs.Descent name m l m' l' := by
  obtain ⟨names, name, hlist, hmem, rfl, hdirectory⟩ := he
  obtain ⟨m, l, hp, hnames⟩ := hs.listed _ _ hlist
  obtain ⟨m', l', hq⟩ := hs.entered _ hdirectory
  obtain ⟨e, he⟩ := h.mem_names_iff.1 (hnames name hmem)
  have hname : IsName name := h.isName he (by simp)
  refine ⟨name, m, l, m', l', rfl, hp, hq, ?_⟩
  rw [Path.join_child hname] at hq
  exact hp.descent hname hq

/-- From a directory of some rank a scan only enters directories of a lower one. -/
theorem Enters.exists_rank_lt (he : Enters s root p q)
    (hp : fs.PassesWithin n (root.join p) m l) :
    ∃ m' l', fs.PassesWithin n (root.join q) m' l' ∧ fs.rank m' l' < fs.rank m l := by
  obtain ⟨name, k, x, m', l', -, hp', hq, hdescent⟩ := he.exists_descent h hs
  obtain ⟨rfl, rfl⟩ := FileSystem.Passes.unique hp hp'
  exact ⟨m', l', hq, hdescent.rank_lt⟩

/-- So descents come to an end. -/
theorem wellFounded_enters (root : Path) : WellFounded fun q p => Enters s root p q := by
  have hrank : ∀ r p m l, fs.PassesWithin n (root.join p) m l → fs.rank m l = r →
      Acc (fun q p => Enters s root p q) p := by
    intro r
    induction r using Nat.strongRecOn with
    | _ r ih =>
      intro p m l hp hr
      constructor
      intro q he
      obtain ⟨m', l', hq, hlt⟩ := he.exists_rank_lt h hs hp
      exact ih _ (hr ▸ hlt) q m' l' hq rfl
  constructor
  intro p
  constructor
  intro q he
  obtain ⟨-, -, -, m', l', -, -, hq, -⟩ := he.exists_descent h hs
  exact hrank _ q m' l' hq rfl

/-- There are no more descents in a row than the rank of where they start. -/
theorem length_le_rank {ps : List Path} (hps : (p :: ps).IsChain (Enters s root))
    (hp : fs.PassesWithin n (root.join p) m l) : ps.length ≤ fs.rank m l := by
  induction ps generalizing p m l with
  | nil => exact Nat.zero_le _
  | cons q ps ih =>
    obtain ⟨he, hrest⟩ := List.isChain_cons_cons.1 hps
    obtain ⟨m', l', hq, hlt⟩ := he.exists_rank_lt h hs hp
    have hlength := ih hrest hq
    rw [List.length_cons]
    omega

theorem length_le_of_isChain {ps : List Path} (hps : ps.IsChain (Enters s root)) :
    ps.length ≤ (n + 1) * (fs.height + 1) := by
  match ps, hps with
  | [], _ => exact Nat.zero_le _
  | [p], _ => exact Nat.mul_pos (Nat.succ_pos n) (Nat.succ_pos _)
  | p :: q :: ps, hps =>
    obtain ⟨he, -⟩ := List.isChain_cons_cons.1 hps
    obtain ⟨-, m, l, -, -, -, hp, -, -⟩ := he.exists_descent h hs
    have hlength := length_le_rank h hs hps hp
    have hrank := hp.rank_lt
    rw [List.length_cons]
    omega

/-- What is met is there. -/
theorem exists_meets (root p : Path) : ∃ vs, Meets s root p vs := by
  induction p using (wellFounded_enters h hs root).induction with
  | _ p ih =>
    cases hlist : s.listNames (root.join p) with
    | error e => exact ⟨_, .unlisted hlist⟩
    | ok names =>
      have hbelow : ∀ name, ∃ vs, name ∈ names →
          (∀ e, s.isDirectory (root.join (p.child name)) = .error e →
            vs = [.unreadable (root.join (p.child name)) e]) ∧
          (s.isDirectory (root.join (p.child name)) = .ok false → vs = [.file (p.child name)]) ∧
          (s.isDirectory (root.join (p.child name)) = .ok true →
            Meets s root (p.child name) vs) := by
        intro name
        by_cases hmem : name ∈ names
        · cases hd : s.isDirectory (root.join (p.child name)) with
          | error e => exact ⟨[.unreadable (root.join (p.child name)) e], by simp⟩
          | ok directory =>
            cases directory with
            | false => exact ⟨[.file (p.child name)], by simp⟩
            | true =>
              obtain ⟨vs, hvs⟩ := ih (p.child name) ⟨names, name, hlist, hmem, rfl, hd⟩
              exact ⟨vs, by simpa using fun _ => hvs⟩
        · exact ⟨[], fun hno => absurd hno hmem⟩
      choose below hbelow using hbelow
      exact ⟨_, .listed hlist (fun name hmem => (hbelow name hmem).1)
        (fun name hmem => (hbelow name hmem).2.1) fun name hmem => (hbelow name hmem).2.2⟩

/-- **Scans end.** Whatever a system refuses besides, in a tree of files a scan ends if no path is
granted that leads through more than some number of links. -/
theorem ends_of_limited (root : Path) : Ends s fs n root where
  descents _ _ he := he.exists_descent h hs
  bounded _ hps := length_le_of_isChain h hs hps
  meets p := by
    obtain ⟨vs, hvs⟩ := exists_meets h hs root p
    refine ⟨vs, fun ws => ⟨hvs.unique, ?_⟩⟩
    rintro rfl
    exact hvs

end limited

/-! ### Visits -/

/-- What is visited is what is met: a path that is too long is refused, so that the bound on the
depth is never reached. -/
theorem meets_visitsBelow (h : fs.IsTree) (root : Path) {fuel : Nat} {p : Path} (hpos : 0 < fuel)
    (hfuel : pathBound ≤ fuel + (root.join p).text.utf8ByteSize) :
    Meets fs.system root p (visitsBelow fs root fuel p) := by
  induction fuel generalizing p with
  | zero => exact absurd hpos (Nat.lt_irrefl 0)
  | succ fuel ih =>
    cases hlist : fs.listNames (root.join p) with
    | error e =>
      rw [visitsBelow_of_error hlist]
      exact .unlisted hlist
    | ok names =>
      rw [visitsBelow_succ hlist]
      apply Meets.listed hlist
      case refused =>
        intro name _ e hd
        have hd : fs.isDirectory (root.join (p.child name)) = .error e := hd
        simp only [hd]
      case file =>
        intro name _ hd
        have hd : fs.isDirectory (root.join (p.child name)) = .ok false := hd
        simp only [hd]
      case entered =>
        intro name hmem hd
        have hd : fs.isDirectory (root.join (p.child name)) = .ok true := hd
        simp only [hd]
        have hname : IsName name := h.isName_of_listNames hlist hmem
        have hlonger := Path.utf8ByteSize_lt_child hname (root.join p)
        rw [← Path.join_child hname] at hlonger
        have hshort := FileSystem.utf8ByteSize_lt_of_checkPath
          (FileSystem.passesTo_of_isDirectory hd).1
        exact ih (by omega) (by omega)

/-- The visits of a scan are what is met in its folder. -/
theorem meets_visits (h : fs.IsTree) (root : Path) : Meets fs.system root ⟨""⟩ (visits fs root) :=
  meets_visitsBelow h root (by decide) (Nat.le_add_right _ _)

end Manifest

end FileRoutes
