import FileRoutes.FileSystem.Reading
import FileRoutes.Proofs.Changes
import FileRoutes.Proofs.Order
import FileRoutes.Proofs.Ways
import Mathlib.Data.List.Induction
import Mathlib.Data.List.Nodup
import Mathlib.Data.List.Sort

/-!
# File trees

The entries of a real file system form a tree: what stands anywhere stands in a directory, under
a name, and nothing stands at one location twice. In a tree the names in a directory are those
of its entries, each once and in order, and every entry below a directory is found from there by
the path that spells where it is, unless that path is too long.

## The model

* `IsName` — a text that can be the name of an entry.
* `Grounded` — a file system in which everything stands in a directory.
* `IsTree` — a file system whose entries form a tree.
* `Path.ofNames` — the relative path that spells a location.

## What is proved

* `mem_names_iff`, `pairwise_names` — the names in a directory.
* `Passes.entry_directory` — ways lead to directories.
* `locate_below` — an entry below a directory is found by the path that spells where it is.
-/

namespace FileRoutes

namespace Text

theorem mem_joinWith_of_mem {sep c : Char} {p : List Char} {ps : List (List Char)} (hp : p ∈ ps)
    (hc : c ∈ p) : c ∈ joinWith sep ps := by
  induction ps with
  | nil => cases hp
  | cons q qs ih =>
    cases qs with
    | nil =>
      obtain rfl := List.mem_singleton.1 hp
      exact hc
    | cons r rs =>
      rw [joinWith, List.mem_append, List.mem_cons]
      rcases List.mem_cons.1 hp with rfl | hp
      · exact .inl hc
      · exact .inr (.inr (ih hp))

theorem exists_of_mem_joinWith {sep c : Char} {ps : List (List Char)} (h : c ∈ joinWith sep ps)
    (hc : c ≠ sep) : ∃ p ∈ ps, c ∈ p := by
  induction ps with
  | nil => cases h
  | cons q qs ih =>
    cases qs with
    | nil => exact ⟨q, List.mem_singleton_self q, h⟩
    | cons r rs =>
      rw [joinWith, List.mem_append, List.mem_cons] at h
      rcases h with h | h | h
      · exact ⟨q, List.mem_cons_self, h⟩
      · exact absurd h hc
      · obtain ⟨p, hp, hcp⟩ := ih h
        exact ⟨p, List.mem_cons_of_mem _ hp, hcp⟩

/-- Every character of a piece is one of the text. -/
theorem mem_of_mem_split {s piece : String} {c : Char} (hp : piece ∈ split '/' s)
    (hc : c ∈ piece.toList) : c ∈ s.toList := by
  rw [← join_split s, toList_join]
  exact mem_joinWith_of_mem (List.mem_map_of_mem hp) hc

end Text

namespace FileSystem

open FileRoutes.Path (GoesDown)

/-- A text that can be the name of an entry. -/
structure IsName (s : String) : Prop where
  /-- It leads down. -/
  down : GoesDown s
  /-- It holds no slash. -/
  noSlash : '/' ∉ s.toList
  /-- It holds no NUL. -/
  noNul : '\x00' ∉ s.toList
  /-- It is not too long. -/
  short : ¬ greatestName < s.utf8ByteSize

instance (s : String) : Decidable (IsName s) :=
  decidable_of_iff
    (GoesDown s ∧ '/' ∉ s.toList ∧ '\x00' ∉ s.toList ∧ ¬ greatestName < s.utf8ByteSize)
    ⟨fun ⟨hd, hs, hn, hl⟩ => ⟨hd, hs, hn, hl⟩, fun h => ⟨h.down, h.noSlash, h.noNul, h.short⟩⟩

/-- Everything stands in a directory. -/
structure Grounded (fs : FileSystem) : Prop where
  /-- What stands at a location stands in a directory. -/
  parents : ∀ l name e, fs.entry? (l ++ [name]) = some e → fs.entry? l = some .directory
  /-- Relative paths start at a directory. -/
  here : fs.entry? fs.workingDirectory = some .directory

/-- The entries form a tree. -/
structure IsTree (fs : FileSystem) : Prop extends Grounded fs where
  /-- Nothing stands at one location twice. -/
  nodup : (fs.entries.map Prod.fst).Nodup
  /-- Every location is made of names. -/
  names : ∀ m ∈ fs.entries, ∀ s ∈ m.1, IsName s

variable {fs fs' : FileSystem} {l l' : Location}

/-! ### Entries of a tree -/

theorem mem_entries_of_entry {e : Entry} (hl : l ≠ []) (h : fs.entry? l = some e) :
    (l, e) ∈ fs.entries := by
  rw [FileSystem.entry?, if_neg hl] at h
  exact Keyed.mem_of_get_eq_some h

theorem IsTree.entry_of_mem (h : fs.IsTree) {e : Entry} (hl : l ≠ []) (hm : (l, e) ∈ fs.entries) :
    fs.entry? l = some e := by
  rw [FileSystem.entry?, if_neg hl]
  exact Keyed.get_of_mem h.nodup hm

/-- Whether the entries form a tree can be read off them one by one. -/
theorem isTree_iff : fs.IsTree ↔ (fs.entries.map Prod.fst).Nodup ∧
    (∀ m ∈ fs.entries, ∀ s ∈ m.1, IsName s) ∧
    (∀ m ∈ fs.entries, fs.entry? m.1.dropLast = some .directory) ∧
      fs.entry? fs.workingDirectory = some .directory := by
  constructor
  · refine fun h => ⟨h.nodup, h.names, fun m hm => ?_, h.here⟩
    obtain ⟨l, e⟩ := m
    rcases List.eq_nil_or_concat l with rfl | ⟨init, name, rfl⟩
    · rfl
    · rw [List.concat_eq_append] at hm ⊢
      rw [List.dropLast_concat]
      exact h.parents _ _ e (h.entry_of_mem (by simp) hm)
  · rintro ⟨hnodup, hnames, hparents, hhere⟩
    refine ⟨⟨fun l name e he => ?_, hhere⟩, hnodup, hnames⟩
    have := hparents _ (mem_entries_of_entry (by simp) he)
    rwa [List.dropLast_concat] at this

instance (fs : FileSystem) : Decidable fs.IsTree := decidable_of_iff _ isTree_iff.symm

/-- A location at which something stands is made of names. -/
theorem IsTree.isName (h : fs.IsTree) {e : Entry} (he : fs.entry? l = some e) {s : String}
    (hs : s ∈ l) : IsName s :=
  h.names _ (mem_entries_of_entry (List.ne_nil_of_mem hs) he) s hs

theorem Grounded.directory_dropLast (h : fs.Grounded) (hl : fs.entry? l = some .directory) :
    fs.entry? l.dropLast = some .directory := by
  rcases List.eq_nil_or_concat l with rfl | ⟨init, name, rfl⟩
  · rfl
  · rw [List.concat_eq_append] at hl ⊢
    rw [List.dropLast_concat]
    exact h.parents _ _ _ hl

/-- What is above something that stands anywhere is a directory. -/
theorem Grounded.directory_of_append (h : fs.Grounded) {rel : Location} {e : Entry}
    (hrel : rel ≠ []) (he : fs.entry? (l ++ rel) = some e) : fs.entry? l = some .directory := by
  induction rel using List.reverseRecOn generalizing e with
  | nil => exact absurd rfl hrel
  | append_singleton init name ih =>
    rw [← List.append_assoc] at he
    have hd := h.parents _ _ _ he
    by_cases hi : init = []
    · simpa [hi] using hd
    · exact ih hi hd

/-! ### Names in a directory -/

/-- The names in a directory are those of its entries. -/
theorem IsTree.mem_names_iff (h : fs.IsTree) {name : String} :
    name ∈ fs.names l ↔ ∃ e, fs.entry? (l ++ [name]) = some e := by
  have hname : ∀ m : Location × Entry, nameIn? l m.1 = some name ↔ m.1 = l ++ [name] := by
    rintro ⟨m, e⟩
    rcases List.eq_nil_or_concat m with rfl | ⟨init, last, rfl⟩
    · simp [nameIn?]
    · simp only [nameIn?, List.concat_eq_append, List.dropLast_concat, List.getLast?_concat]
      by_cases hi : init = l
      · simp [hi]
      · simp [hi]
  rw [FileSystem.names, List.mem_mergeSort, List.mem_filterMap]
  constructor
  · rintro ⟨⟨m, e⟩, hm, hn⟩
    obtain rfl : m = l ++ [name] := (hname _).1 hn
    exact ⟨e, h.entry_of_mem (by simp) hm⟩
  · rintro ⟨e, he⟩
    exact ⟨_, mem_entries_of_entry (by simp) he, (hname _).2 rfl⟩

theorem IsTree.nodup_names (h : fs.IsTree) (l : Location) : (fs.names l).Nodup := by
  rw [FileSystem.names, (List.mergeSort_perm _ _).nodup_iff]
  have hlocations : ((fs.entries.map Prod.fst).filterMap (nameIn? l)).Nodup := by
    refine List.Nodup.filterMap (fun m m' s hm hm' => ?_) h.nodup
    unfold nameIn? at hm hm'
    split at hm
    · split at hm'
      · next hd hd' =>
        obtain ⟨init, rfl⟩ := List.getLast?_eq_some_iff.1 hm
        obtain ⟨init', rfl⟩ := List.getLast?_eq_some_iff.1 hm'
        rw [List.dropLast_concat] at hd hd'
        rw [hd, hd']
      · cases hm'
    · cases hm
  rwa [List.filterMap_map] at hlocations

/-- The names in a directory are in order. -/
theorem IsTree.pairwise_names (h : fs.IsTree) (l : Location) :
    (fs.names l).Pairwise (· < ·) := by
  have hsorted : (fs.names l).Pairwise (· ≤ ·) := by
    exact List.pairwise_mergeSort' (· ≤ ·) _
  exact hsorted.imp₂ (fun a b hle hne => lt_of_le_of_ne hle hne) (h.nodup_names l)

/-- Two trees with the same names in a directory list them alike. -/
theorem IsTree.names_congr (h : fs.IsTree) (h' : fs'.IsTree)
    (hsame : ∀ name, (∃ e, fs.entry? (l ++ [name]) = some e) ↔
      ∃ e, fs'.entry? (l' ++ [name]) = some e) : fs.names l = fs'.names l' := by
  have hmem : ∀ name, name ∈ fs.names l ↔ name ∈ fs'.names l' := fun name => by
    rw [h.mem_names_iff, h'.mem_names_iff, hsame]
  have hperm := (List.perm_ext_iff_of_nodup (h.nodup_names l) (h'.nodup_names l')).2 hmem
  refine hperm.eq_of_pairwise (fun a b _ _ hab hba => ?_) (h.pairwise_names l)
    (h'.pairwise_names l')
  exact absurd hba (lt_asymm hab)

/-- What can be listed is a directory, and its names are listed. -/
theorem listNames_eq_ok {p : Path} {names : List String} (h : fs.listNames p = .ok names) :
    ∃ l, fs.resolve p = .ok l ∧ fs.entry? l = some .directory ∧ names = fs.names l := by
  unfold listNames at h
  cases hr : fs.resolve p with
  | error e => simp [hr, bind, Except.bind] at h
  | ok l =>
    simp only [hr, bind, Except.bind] at h
    split at h
    · next hd => exact ⟨l, rfl, hd, (Except.ok.inj h).symm⟩
    · cases h

theorem IsTree.isName_of_listNames (h : fs.IsTree) {p : Path} {names : List String}
    (hn : fs.listNames p = .ok names) {name : String} (hm : name ∈ names) : IsName name := by
  obtain ⟨l, -, -, rfl⟩ := listNames_eq_ok hn
  obtain ⟨e, he⟩ := h.mem_names_iff.1 hm
  exact h.isName he (List.mem_append_right _ List.mem_cons_self)

/-! ### Ways in a tree -/

theorem directory_startOf (hl : fs.entry? l = some .directory) (text : String) :
    fs.entry? (startOf text l) = some .directory := by
  unfold startOf
  split
  · rfl
  · exact hl

/-- Ways lead from directories to directories. -/
theorem Passes.entry_directory {n m : Nat} {ps : List String} (hp : fs.Passes n l ps m l')
    (h : fs.Grounded) (hl : fs.entry? l = some .directory) :
    fs.entry? l' = some .directory := by
  induction hp with
  | here => exact hl
  | nothing _ _ ih => exact ih hl
  | up _ ih => exact ih (h.directory_dropLast hl)
  | directory _ _ entry _ ih => exact ih entry
  | link _ _ _ _ ih => exact ih (directory_startOf hl _)

theorem PassesTo.entry_directory {p : Path} (hp : fs.PassesTo p l) (h : fs.Grounded) :
    fs.entry? l = some .directory := by
  obtain ⟨m, hp⟩ := hp
  exact hp.entry_directory h (directory_startOf h.here _)

/-- The names of a directory lead to it from every directory above. -/
theorem IsTree.passes (h : fs.IsTree) (n : Nat) {rel : Location}
    (hrel : fs.entry? (l ++ rel) = some .directory) : fs.Passes n l rel n (l ++ rel) := by
  induction rel generalizing l with
  | nil => simpa using .here
  | cons name rest ih =>
    have hname : IsName name := h.isName hrel (by simp)
    have hall : l ++ name :: rest = (l ++ [name]) ++ rest := List.append_cons l name rest
    have hentry : fs.entry? (l ++ [name]) = some .directory := by
      by_cases hrest : rest = []
      · simpa [hrest] using hrel
      · exact h.directory_of_append hrest (hall ▸ hrel)
    rw [hall]
    exact .directory hname.down hname.short hentry (ih (hall ▸ hrel))

/-! ### Changes of a tree -/

/-- Putting something into a directory loses no directory, unless it takes the place of one. -/
theorem directory_place {name : String} {e : Entry}
    (hlost : fs.entry? (l ++ [name]) = some .directory → e = .directory) {m : Location}
    (hm : fs.entry? m = some .directory) :
    entry? (fs.place (l ++ [name]) e) m = some .directory := by
  by_cases hl : m = l ++ [name]
  · subst hl
    rw [entry_place_self _ (by simp), hlost hm]
  · rw [entry_place_of_ne _ hl]
    exact hm

theorem directory_remove (hl : fs.entry? l ≠ some .directory) {m : Location}
    (hm : fs.entry? m = some .directory) : entry? (fs.remove l) m = some .directory := by
  rw [entry_remove_of_ne _ (by rintro rfl; exact hl hm)]
  exact hm

theorem Grounded.place (h : fs.Grounded) {name : String} {e : Entry}
    (hd : fs.entry? l = some .directory)
    (hlost : fs.entry? (l ++ [name]) = some .directory → e = .directory) :
    (fs.place (l ++ [name]) e).Grounded := by
  refine ⟨fun m s e' he => directory_place hlost ?_, directory_place hlost h.here⟩
  by_cases hm : m ++ [s] = l ++ [name]
  · obtain ⟨rfl, -⟩ := List.append_inj' hm rfl
    exact hd
  · rw [entry_place_of_ne _ hm] at he
    exact h.parents _ _ _ he

theorem Grounded.remove (h : fs.Grounded) (hl : fs.entry? l ≠ some .directory) :
    (fs.remove l).Grounded := by
  refine ⟨fun m s e he => directory_remove hl ?_, directory_remove hl h.here⟩
  have hne : m ++ [s] ≠ l := by
    rintro rfl
    rw [entry_remove_self _ (by simp)] at he
    cases he
  rw [entry_remove_of_ne _ hne] at he
  exact h.parents _ _ _ he

/-- A tree in which something is put into a directory is a tree, if no directory is lost. -/
theorem IsTree.place (h : fs.IsTree) {name : String} {e : Entry} (hname : IsName name)
    (hd : fs.entry? l = some .directory)
    (hlost : fs.entry? (l ++ [name]) = some .directory → e = .directory) :
    (fs.place (l ++ [name]) e).IsTree := by
  refine ⟨h.toGrounded.place hd hlost, Keyed.nodup_put h.nodup _ _, fun m hm s hs => ?_⟩
  rcases Keyed.mem_of_mem_put hm with rfl | hm
  · rcases List.mem_append.1 hs with hs | hs
    · exact h.isName hd hs
    · rwa [List.mem_singleton.1 hs]
  · exact h.names m hm s hs

/-- A tree without one of its files is a tree. -/
theorem IsTree.remove (h : fs.IsTree) (hl : fs.entry? l ≠ some .directory) :
    (fs.remove l).IsTree :=
  ⟨h.toGrounded.remove hl, Keyed.nodup_erase h.nodup _,
    fun m hm => h.names m (Keyed.mem_of_mem_erase hm)⟩

end FileSystem

/-! ### Paths that spell a location -/

namespace Path

open FileSystem

/-- The relative path that spells a location. -/
def ofNames (l : Location) : Path := ⟨Text.join "/" l⟩

variable {l : Location}

theorem segments_ofNames (hl : l ≠ []) (h : ∀ s ∈ l, IsName s) : (ofNames l).segments = l :=
  segments_join hl fun s hs => (h s hs).noSlash

theorem not_isAbsolute_ofNames (h : ∀ s ∈ l, IsName s) : (ofNames l).isAbsolute = false := by
  cases l with
  | nil => rfl
  | cons s rest =>
    refine Bool.eq_false_iff.2 fun ha => ?_
    obtain ⟨rfl, -⟩ := (isAbsolute_iff_segments (segments_ofNames (by simp) h)).1 ha
    exact absurd (h "" List.mem_cons_self).down (by decide)

theorem text_ofNames_concat (hl : l ≠ []) (s : String) :
    (ofNames (l ++ [s])).text = (ofNames l).text ++ "/" ++ s := by
  have key : ∀ l : Location, l ≠ [] →
      Text.join "/" (l ++ [s]) = Text.join "/" l ++ "/" ++ s := by
    intro l
    induction l with
    | nil => exact fun hl => absurd rfl hl
    | cons p rest ih =>
      intro _
      cases rest with
      | nil => rfl
      | cons q qs =>
        rw [List.cons_append, List.cons_append, Text.join, ← List.cons_append, ih (by simp),
          Text.join]
        simp only [String.append_assoc]
  exact key l hl

/-- The path of an entry of a directory spells where the entry is. -/
theorem child_ofNames {name : String} (h : ∀ s ∈ l, IsName s) (hname : IsName name) :
    (ofNames l).child name = ofNames (l ++ [name]) := by
  have hrelative : Path.isAbsolute ⟨name⟩ = false := by
    have := not_isAbsolute_ofNames (l := [name]) (by simpa using hname)
    exact this
  rw [child, join, if_neg (by simp [hrelative])]
  rcases List.eq_nil_or_concat l with rfl | ⟨init, last, rfl⟩
  · exact if_pos rfl
  · rw [List.concat_eq_append] at h ⊢
    have hlast : IsName last := h last (by simp)
    obtain ⟨start, hstart⟩ : ∃ start, (ofNames (init ++ [last])).text = start ++ last := by
      by_cases hi : init = []
      · exact ⟨"", by simp [hi, ofNames, Text.join]⟩
      · exact ⟨_, text_ofNames_concat hi last⟩
    have hne : last.toList ≠ [] := by
      intro he
      have : last = "" := by simpa using he
      subst this
      exact absurd hlast.down (by decide)
    have hend : (ofNames (init ++ [last])).text.toList.getLast? ≠ some '/' := by
      rw [hstart, String.toList_append, List.getLast?_append_of_ne_nil _ hne]
      exact fun he => hlast.noSlash (List.mem_of_getLast? he)
    have htext : (ofNames (init ++ [last])).text ≠ "" := by
      intro he
      rw [hstart] at he
      simp_all
    rw [if_neg htext, if_neg hend]
    exact congrArg Path.mk (text_ofNames_concat (by simp) name).symm

/-- Every name makes a path longer. -/
theorem length_le_utf8ByteSize_ofNames (h : ∀ s ∈ l, IsName s) :
    l.length ≤ (ofNames l).text.utf8ByteSize := by
  induction l using List.reverseRecOn with
  | nil => simp
  | append_singleton init last ih =>
    have hpos : 0 < last.utf8ByteSize := by
      rw [Nat.pos_iff_ne_zero, ne_eq, String.utf8ByteSize_eq_zero_iff]
      rintro rfl
      exact absurd (h "" (by simp)).down (by decide)
    have hinit := ih fun s hs => h s (List.mem_append_left _ hs)
    by_cases hi : init = []
    · simp [hi, ofNames, Text.join]
      omega
    · rw [text_ofNames_concat hi, String.utf8ByteSize_append, String.utf8ByteSize_append,
        List.length_append]
      simp only [List.length_singleton]
      omega

end Path

namespace FileSystem

open FileRoutes.Path (ofNames)

variable {fs : FileSystem} {root : Path} {base rel : Location}

/-! ### What is below a directory -/

/-- What is wrong with the path of something below a directory: nothing, or it is too long. -/
theorem checkPath_below (hroot : checkPath root = .ok ()) (hrel : ∀ s ∈ rel, IsName s) :
    checkPath (root.join (ofNames rel)) =
      if pathBound ≤ (root.join (ofNames rel)).text.utf8ByteSize then .error .nameTooLong
      else .ok () := by
  have hnul : '\x00' ∉ (ofNames rel).text.toList := by
    rw [ofNames, Text.toList_join]
    intro hm
    obtain ⟨p, hp, hn⟩ := Text.exists_of_mem_joinWith hm (by decide)
    obtain ⟨s, hs, rfl⟩ := List.mem_map.1 hp
    exact (hrel s hs).noNul hn
  have hrelative := Path.not_isAbsolute_ofNames hrel
  unfold checkPath at hroot
  split at hroot
  · cases hroot
  · next hrootnul =>
    split at hroot
    · cases hroot
    · next hne =>
      have hjoin : ∃ between, '\x00' ∉ between.toList ∧
          (root.join (ofNames rel)).text = root.text ++ between ++ (ofNames rel).text := by
        rw [Path.join, if_neg (by simp [hrelative]), if_neg hne]
        split
        · exact ⟨"", by simp, by simp⟩
        · exact ⟨"/", by decide, rfl⟩
      obtain ⟨between, hbetween, hjoin⟩ := hjoin
      unfold checkPath
      rw [if_neg, if_neg]
      · rw [hjoin]
        simp [hne]
      · rw [hjoin]
        simp [hrootnul, hbetween, hnul]

/-- An entry below a directory is found by the path that spells where it is, unless that path is
too long. -/
theorem locate_below (h : fs.IsTree) (hroot : fs.PassesTo root base)
    (hlinks : fs.NoLinksBelow base) {e : Entry} (he : fs.entry? (base ++ rel) = some e)
    (last : Bool) : fs.locate last (root.join (ofNames rel)) =
      checkPath (root.join (ofNames rel)) >>= fun _ => .ok (.found (base ++ rel)) := by
  have hnames : ∀ s ∈ rel, IsName s := fun s hs => h.isName he (List.mem_append_right _ hs)
  obtain ⟨m, hlocate⟩ := hroot.locate_join (Path.not_isAbsolute_ofNames hnames)
  rw [hlocate]
  congr 1
  funext _
  rcases List.eq_nil_or_concat rel with rfl | ⟨init, name, rfl⟩
  · have hsegments : (ofNames []).segments = [""] := by decide
    rw [hsegments, walk_slash, List.append_nil]
  · rw [List.concat_eq_append] at *
    have hname : IsName name := hnames name (by simp)
    have hd : fs.entry? (base ++ init) = some .directory :=
      h.parents _ name e (by rwa [List.append_assoc])
    rw [Path.segments_ofNames (by simp) hnames, (h.passes m hd).walk_append (by simp) last]
    rw [← List.append_assoc] at he ⊢
    cases e with
    | directory => rw [walk_of_directory hname.down hname.short he, walk_nil]
    | file content => rw [walk_of_file hname.down hname.short he, if_pos rfl]
    | link target =>
      rw [List.append_assoc] at he
      exact absurd he (hlinks _ target (by simp))

end FileSystem

end FileRoutes
