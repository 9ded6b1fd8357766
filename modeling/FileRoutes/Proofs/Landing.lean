import FileRoutes.FileSystem.Walk
import FileRoutes.Path.Normal

/-!
# Where a path leads by its text

Without links a path can be followed by its text alone: a piece that says nothing stays where
it is, `..` goes one up and stays at the root, and every other piece goes down. This module
says so without components and without a file system, and relates the operations on paths to
it.

## The model

* `follow` — where some pieces lead from a location.
* `landing` — where a path leads; a relative path starts from a location of its own.

## What is proved

* `landing_join` — a relative path leads on from where the directory leads that it is joined to.
* `landing_directory` — the directory of a file leads to where the file leads, without the name.
* `resolved_eq_landing` — the normal form of an absolute path is the way to where it leads.
-/

namespace FileRoutes

/-! ### Texts and their pieces -/

namespace Text

theorem pieces_append_cons (sep : Char) (as bs : List Char) :
    pieces sep (as ++ sep :: bs) = pieces sep as ++ pieces sep bs := by
  induction as with
  | nil => simp [pieces]
  | cons a as ih =>
    by_cases ha : a = sep
    · simp [pieces, ha, ih]
    · obtain ⟨p, ps, hp⟩ := List.exists_cons_of_ne_nil (pieces_ne_nil sep as)
      simp [pieces, ha, ih, hp]

/-- A separator between two texts cuts them apart. -/
theorem split_append (a b : String) : split '/' (a ++ "/" ++ b) = split '/' a ++ split '/' b := by
  have h : (a ++ "/" ++ b).toList = a.toList ++ '/' :: b.toList := by simp
  rw [split, h, pieces_append_cons, List.map_append]
  rfl

theorem toList_join (ps : List String) :
    (join "/" ps).toList = joinWith '/' (ps.map String.toList) := by
  induction ps with
  | nil => rfl
  | cons p ps ih =>
    cases ps with
    | nil => rfl
    | cons q qs => simpa [join, joinWith] using ih

/-- Pieces without a slash are read back from their joined text. -/
theorem split_join {ps : List String} (hne : ps ≠ []) (h : ∀ p ∈ ps, '/' ∉ p.toList) :
    split '/' (join "/" ps) = ps := by
  have hp : ∀ p ∈ ps.map String.toList, '/' ∉ p := by simpa using h
  rw [split, toList_join, pieces_joinWith (by simpa using hne) hp, List.map_map]
  simp

theorem not_mem_of_mem_split {s p : String} (h : p ∈ split '/' s) : '/' ∉ p.toList := by
  obtain ⟨cs, hcs, rfl⟩ := List.mem_map.1 h
  simpa using not_mem_of_mem_pieces hcs

theorem split_ne_nil (s : String) : split '/' s ≠ [] := by
  simpa [split] using pieces_ne_nil '/' s.toList

/-- Cutting a text and joining the pieces gives the text back. -/
theorem join_split (s : String) : join "/" (split '/' s) = s := by
  apply String.toList_inj.1
  rw [toList_join, split, List.map_map]
  have : (String.toList ∘ String.ofList) = id := by funext cs; simp
  rw [this, List.map_id, joinWith_pieces]

theorem join_concat_append (init : List String) (last suffix : String) :
    join "/" (init ++ [last]) ++ suffix = join "/" (init ++ [last ++ suffix]) := by
  induction init with
  | nil => rfl
  | cons p init ih =>
    obtain ⟨q, qs, hq⟩ := List.exists_cons_of_ne_nil (l := init ++ [last]) (by simp)
    obtain ⟨r, rs, hr⟩ := List.exists_cons_of_ne_nil (l := init ++ [last ++ suffix]) (by simp)
    rw [List.cons_append, List.cons_append, hq, hr, join, join, ← hq, ← hr, ← ih,
      String.append_assoc, String.append_assoc]

/-- An ending without a slash goes to the last piece. -/
theorem exists_split_append (suffix : String) (h : '/' ∉ suffix.toList) (s : String) :
    ∃ init last, split '/' (s ++ suffix) = init ++ [last ++ suffix] := by
  obtain ⟨init, last, hs⟩ := List.eq_nil_or_concat (split '/' s) |>.resolve_left (split_ne_nil s)
  rw [List.concat_eq_append] at hs
  refine ⟨init, last, ?_⟩
  have hjoin : s ++ suffix = join "/" (init ++ [last ++ suffix]) := by
    rw [← join_concat_append, ← hs, join_split]
  rw [hjoin]
  refine split_join (by simp) fun p hp => ?_
  have hslash : ∀ q ∈ init ++ [last], '/' ∉ q.toList := fun q hq => not_mem_of_mem_split (hs ▸ hq)
  rcases List.mem_append.1 hp with hp | hp
  · exact hslash p (List.mem_append_left _ hp)
  · obtain rfl := List.mem_singleton.1 hp
    simp [hslash last (by simp), h]

/-- A number is written without a slash. -/
theorem slash_not_mem_toString (n : Nat) : '/' ∉ (toString n).toList := by
  rw [Nat.toString_eq_ofList_toDigits, String.toList_ofList]
  intro hm
  exact absurd (Nat.isDigit_of_mem_toDigits (by decide) (by decide) hm) (by decide)

end Text

namespace Path

open FileSystem (saysNothing startOf)

/-! ### Following pieces -/

/-- Where some pieces lead from a location. -/
def follow (here : Location) : List String → Location
  | [] => here
  | piece :: rest =>
    if saysNothing piece then follow here rest
    else if piece = ".." then follow here.dropLast rest
    else follow (here ++ [piece]) rest

/-- Where a path leads; `here` is where it starts if it is relative. -/
def landing (here : Location) (p : Path) : Location := follow (startOf p.text here) p.segments

/-- A piece that goes down: neither nothing nor up. -/
def GoesDown (piece : String) : Prop := saysNothing piece = false ∧ piece ≠ ".."

instance (piece : String) : Decidable (GoesDown piece) :=
  inferInstanceAs (Decidable (saysNothing piece = false ∧ piece ≠ ".."))

/-- A piece that is longer than two dots goes down. -/
theorem goesDown_append {suffix : String} (h : 2 < suffix.toList.length) (s : String) :
    GoesDown (s ++ suffix) := by
  have hlen : ∀ t : String, t.toList.length ≤ 2 → s ++ suffix ≠ t := by
    rintro t ht rfl
    rw [String.toList_append, List.length_append] at ht
    omega
  refine ⟨?_, hlen ".." (by decide)⟩
  simp [saysNothing, hlen "." (by decide), -String.append_eq_empty_iff, hlen "" (by decide)]

/-- A piece says nothing, goes up or goes down. -/
theorem piece_cases (piece : String) :
    saysNothing piece = true ∨ piece = ".." ∨ GoesDown piece := by
  by_cases hs : saysNothing piece = true
  · exact .inl hs
  · by_cases hu : piece = ".."
    · exact .inr (.inl hu)
    · exact .inr (.inr ⟨Bool.eq_false_iff.2 hs, hu⟩)

@[simp] theorem follow_nil (here : Location) : follow here [] = here := rfl

section step

variable {piece : String} (rest : List String) (here : Location)

theorem follow_cons_nothing (hs : saysNothing piece = true) :
    follow here (piece :: rest) = follow here rest := by
  rw [follow, if_pos hs]

theorem follow_cons_up : follow here (".." :: rest) = follow here.dropLast rest := by
  rw [follow, if_neg (by decide), if_pos rfl]

theorem follow_cons_down (h : GoesDown piece) :
    follow here (piece :: rest) = follow (here ++ [piece]) rest := by
  rw [follow, if_neg (by simp [h.1]), if_neg h.2]

end step

theorem follow_append (here : Location) (as bs : List String) :
    follow here (as ++ bs) = follow (follow here as) bs := by
  induction as generalizing here with
  | nil => rfl
  | cons a as ih =>
    rw [List.cons_append]
    obtain hs | rfl | hdown := piece_cases a
    · rw [follow_cons_nothing _ _ hs, follow_cons_nothing _ _ hs, ih]
    · rw [follow_cons_up, follow_cons_up, ih]
    · rw [follow_cons_down _ _ hdown, follow_cons_down _ _ hdown, ih]

theorem follow_saysNothing {ps : List String} (h : ∀ p ∈ ps, saysNothing p = true)
    (here : Location) : follow here ps = here := by
  induction ps with
  | nil => rfl
  | cons p ps ih =>
    rw [follow_cons_nothing _ _ (h p List.mem_cons_self)]
    exact ih fun q hq => h q (List.mem_cons_of_mem _ hq)

/-- Pieces that go down are appended to where they start. -/
theorem follow_goesDown {ps : List String} (h : ∀ p ∈ ps, GoesDown p) (here : Location) :
    follow here ps = here ++ ps := by
  induction ps generalizing here with
  | nil => simp
  | cons p ps ih =>
    rw [follow_cons_down _ _ (h p List.mem_cons_self),
      ih fun q hq => h q (List.mem_cons_of_mem _ hq)]
    simp

/-- Going up some times drops as many names. -/
theorem follow_replicate_up (here : Location) (n : Nat) :
    follow here (List.replicate n "..") = here.take (here.length - n) := by
  induction n generalizing here with
  | zero => simp
  | succ n ih =>
    rw [List.replicate_succ, follow_cons_up, ih, List.dropLast_eq_take, List.take_take,
      List.length_take]
    congr 1
    omega

/-! ### Joining -/

theorem startOf_append (a b : String) (here : Location) (h : a ≠ "") :
    startOf (a ++ b) here = startOf a here := by
  have ha : a.toList ≠ [] := by simpa using h
  obtain ⟨c, cs, hc⟩ := List.exists_cons_of_ne_nil ha
  simp [startOf, hc]

theorem startOf_of_isAbsolute {p : Path} (h : p.isAbsolute = true) (here : Location) :
    startOf p.text here = [] := by
  rw [startOf, if_pos (by simpa [isAbsolute] using h)]

theorem startOf_of_not_isAbsolute {p : Path} (h : p.isAbsolute = false) (here : Location) :
    startOf p.text here = here := by
  rw [startOf, if_neg (by simpa [isAbsolute] using h)]

/-- A text that ends in a slash, without it. -/
theorem exists_of_getLast_slash {s : String} (h : s.toList.getLast? = some '/') :
    ∃ t, s = t ++ "/" := by
  obtain ⟨cs, hcs⟩ := List.getLast?_eq_some_iff.1 h
  exact ⟨String.ofList cs, String.toList_inj.1 (by simp [hcs])⟩

theorem follow_split_slash (here : Location) (t : String) :
    follow here (Text.split '/' (t ++ "/")) = follow here (Text.split '/' t) := by
  have h : t ++ "/" = t ++ "/" ++ "" := by simp
  have hs : Text.split '/' "" = [""] := by decide
  rw [h, Text.split_append, hs, follow_append]
  exact follow_saysNothing (by decide) _

/-- A relative path leads on from where the path leads that it is joined to. -/
theorem landing_join {q : Path} (h : q.isAbsolute = false) (here : Location) (p : Path) :
    landing here (p.join q) = follow (landing here p) q.segments := by
  unfold join
  rw [if_neg (by simp [h])]
  split
  · next hp =>
    have : p = ⟨""⟩ := by cases p; simp_all
    subst this
    rw [landing, startOf_of_not_isAbsolute h]
    rfl
  · next hp =>
    split
    · next hl =>
      obtain ⟨t, ht⟩ := exists_of_getLast_slash hl
      rw [landing, landing, startOf_append _ _ _ hp, segments, ht, Text.split_append, follow_append,
        segments, ht, follow_split_slash, segments]
    · rw [landing, landing, String.append_assoc, startOf_append _ _ _ hp, segments,
        ← String.append_assoc, Text.split_append, follow_append, segments, segments]

theorem isAbsolute_join {p : Path} (h : p.isAbsolute = true) (q : Path) :
    (p.join q).isAbsolute = true := by
  unfold join
  have hp : p.text.toList.head? = some '/' := by simpa [isAbsolute] using h
  obtain ⟨cs, hcs⟩ := List.head?_eq_some_iff.1 hp
  split
  · assumption
  · split
    · next ht => simp [ht] at hcs
    · split <;> simp [isAbsolute, hcs]

theorem isAbsolute_join_of_relative {q : Path} (h : q.isAbsolute = false) (p : Path) :
    (p.join q).isAbsolute = p.isAbsolute := by
  cases hp : p.isAbsolute with
  | true => exact isAbsolute_join hp q
  | false =>
    unfold join
    rw [if_neg (by simp [h])]
    split
    · exact h
    · next ht =>
      obtain ⟨c, cs, hc⟩ := List.exists_cons_of_ne_nil (l := p.text.toList) (by simpa using ht)
      have hc' : c ≠ '/' := by simpa [isAbsolute, hc] using hp
      split <;> simp [isAbsolute, hc, hc']

/-! ### Directories -/

theorem not_mem_of_mem_segments {p : Path} {s : String} (h : s ∈ p.segments) : '/' ∉ s.toList :=
  Text.not_mem_of_mem_split h

/-- A path is absolute where its first piece is empty and not all of it. -/
theorem isAbsolute_iff_segments {p : Path} {s : String} {rest : List String}
    (h : p.segments = s :: rest) : p.isAbsolute = true ↔ s = "" ∧ rest ≠ [] := by
  have htext : p.text = Text.join "/" (s :: rest) := by rw [← h, segments, Text.join_split]
  have hslash : '/' ∉ s.toList := not_mem_of_mem_segments (h ▸ List.mem_cons_self)
  have hhead : s.toList.head? ≠ some '/' := fun e => hslash (List.mem_of_mem_head? e)
  cases rest with
  | nil => simp [isAbsolute, htext, Text.join, hhead]
  | cons q qs =>
    by_cases hs : s = ""
    · simp [isAbsolute, htext, Text.join, hs]
    · obtain ⟨c, cs, hc⟩ := List.exists_cons_of_ne_nil (l := s.toList) (by simpa using hs)
      have hc' : c ≠ '/' := by simpa [hc] using hhead
      simp [isAbsolute, htext, Text.join, hs, hc, hc']

theorem startOf_of_segments {p : Path} {s : String} {rest : List String}
    (h : p.segments = s :: rest) (here : Location) :
    startOf p.text here = if s = "" ∧ rest ≠ [] then [] else here := by
  split
  · next hs => exact startOf_of_isAbsolute ((isAbsolute_iff_segments h).2 hs) here
  · next hs =>
    exact startOf_of_not_isAbsolute
      (Bool.eq_false_iff.2 fun e => hs ((isAbsolute_iff_segments h).1 e)) here

/-- Pieces without a slash, joined to a path, are its pieces. -/
theorem segments_join {ps : List String} (hne : ps ≠ []) (h : ∀ p ∈ ps, '/' ∉ p.toList) :
    segments ⟨Text.join "/" ps⟩ = ps := Text.split_join hne h

theorem trimEnd_append_blanks {blanks : List String} (h : ∀ b ∈ blanks, saysNothing b = true)
    (l : List String) : trimEnd (l ++ blanks) = trimEnd l := by
  have hb : ∀ b ∈ blanks.reverse, decide (b = "" ∨ b = ".") = true := by
    intro b hb
    simpa [saysNothing] using h b (List.mem_reverse.1 hb)
  rw [trimEnd, trimEnd, List.reverse_append, List.dropWhile_append_of_pos hb]

theorem trimEnd_concat {last : String} (h : saysNothing last = false) (l : List String) :
    trimEnd (l ++ [last]) = l ++ [last] := by
  have hl : ¬ (last = "" ∨ last = ".") := by simpa [saysNothing] using h
  simp [trimEnd, hl]

/-- What is trimmed says nothing. -/
theorem exists_blanks (l : List String) :
    ∃ blanks, l = trimEnd l ++ blanks ∧ ∀ b ∈ blanks, saysNothing b = true := by
  refine ⟨(l.reverse.takeWhile fun s => s = "" ∨ s = ".").reverse, ?_, fun b hb => ?_⟩
  · rw [trimEnd, ← List.reverse_append, List.takeWhile_append_dropWhile, List.reverse_reverse]
  · have hall := List.all_takeWhile (p := fun s => decide (s = "" ∨ s = ".")) (l := l.reverse)
    simpa [saysNothing] using List.all_eq_true.1 hall b (List.mem_reverse.1 hb)

theorem follow_trimEnd (here : Location) (s : String) (l : List String) :
    follow here (s :: trimEnd l) = follow here (s :: l) := by
  obtain ⟨blanks, hl, hb⟩ := exists_blanks l
  calc follow here (s :: trimEnd l)
      = follow (follow here (s :: trimEnd l)) blanks := (follow_saysNothing hb _).symm
    _ = follow here (s :: trimEnd l ++ blanks) := (follow_append _ _ _).symm
    _ = follow here (s :: l) := by rw [List.cons_append, ← hl]

/-- The directory of a path of one name is where the path starts. -/
theorem directory_of_name {p : Path} {last : String} {blanks : List String}
    (h : p.segments = last :: blanks) (hlast : saysNothing last = false)
    (hb : ∀ b ∈ blanks, saysNothing b = true) : p.directory = ⟨""⟩ := by
  have hs : last ≠ "" := by rintro rfl; exact absurd hlast (by decide)
  have ht : trimEnd blanks = [] := by
    rw [← List.nil_append blanks, trimEnd_append_blanks hb]
    rfl
  simp [directory, parent?, h, ht, hs]

/-- The directory of a longer path has the pieces in front of the last name. -/
theorem directory_of_cons {p : Path} {s last : String} {init blanks : List String}
    (h : p.segments = s :: (init ++ last :: blanks)) (hlast : saysNothing last = false)
    (hb : ∀ b ∈ blanks, saysNothing b = true) :
    p.directory = if s = "" ∧ trimEnd init = [] then ⟨"/"⟩
      else ⟨Text.join "/" (s :: trimEnd init)⟩ := by
  have hinner : trimEnd (init ++ last :: blanks) = init ++ [last] := by
    rw [List.append_cons, trimEnd_append_blanks hb, trimEnd_concat hlast]
  obtain ⟨a, as, ha⟩ : ∃ a as, init ++ [last] = a :: as := List.exists_cons_of_ne_nil (by simp)
  have hdrop : trimEnd (a :: as).dropLast = trimEnd init := by rw [← ha, List.dropLast_concat]
  simp only [directory, parent?, h, hinner, ha, hdrop]
  split
  · next ht => by_cases hs : s = "" <;> simp [ht, hs, Text.join]
  · next kept ht =>
    rw [if_neg fun e => ht e.2]
    rfl

/-- The pieces of the directory of a longer path. -/
theorem segments_directory {p : Path} {s last : String} {init blanks : List String}
    (h : p.segments = s :: (init ++ last :: blanks)) (hlast : saysNothing last = false)
    (hb : ∀ b ∈ blanks, saysNothing b = true) :
    p.directory.segments = if s = "" ∧ trimEnd init = [] then ["", ""] else s :: trimEnd init := by
  rw [directory_of_cons h hlast hb]
  split
  · decide
  · refine segments_join (by simp) fun q hq => not_mem_of_mem_segments (p := p) ?_
    obtain ⟨blanks', hi, -⟩ := exists_blanks init
    rw [h, hi]
    rcases List.mem_cons.1 hq with rfl | hq
    · exact List.mem_cons_self
    · exact List.mem_cons_of_mem _ (List.mem_append_left _ (List.mem_append_left _ hq))

/-- The directory of a path is absolute where the path is. -/
theorem isAbsolute_directory {p : Path} {init blanks : List String} {last : String}
    (h : p.segments = init ++ last :: blanks) (hlast : saysNothing last = false)
    (hb : ∀ b ∈ blanks, saysNothing b = true) : p.directory.isAbsolute = p.isAbsolute := by
  apply Bool.eq_iff_iff.2
  cases init with
  | nil =>
    have hs : last ≠ "" := by rintro rfl; exact absurd hlast (by decide)
    rw [directory_of_name h hlast hb, isAbsolute_iff_segments h]
    simp [isAbsolute, hs]
  | cons s init =>
    have hdir := segments_directory (s := s) h hlast hb
    rw [isAbsolute_iff_segments (s := s) h]
    split at hdir
    · next hs => rw [isAbsolute_iff_segments hdir]; simp [hs.1]
    · next hs =>
      rw [isAbsolute_iff_segments hdir]
      by_cases he : s = ""
      · simpa [he] using hs
      · simp [he]

/-- The directory of a file leads to where the file leads, without the name. -/
theorem landing_directory {p : Path} {init blanks : List String} {last : String}
    (h : p.segments = init ++ last :: blanks) (hlast : GoesDown last)
    (hb : ∀ b ∈ blanks, saysNothing b = true) (here : Location) :
    landing here p = landing here p.directory ++ [last] := by
  have hdown : ∀ l, follow l (last :: blanks) = l ++ [last] := fun l => by
    rw [← List.singleton_append, follow_append, follow_saysNothing hb,
      follow_goesDown (by simpa using hlast)]
  cases init with
  | nil =>
    have hs : last ≠ "" := by rintro rfl; exact absurd hlast.1 (by decide)
    rw [directory_of_name h hlast.1 hb, landing, startOf_of_segments h, h, List.nil_append, hdown]
    simp [hs, landing, startOf, segments, Text.split, Text.pieces, follow, saysNothing]
  | cons s init =>
    have hdir := segments_directory (s := s) h hlast.1 hb
    rw [landing, startOf_of_segments (s := s) h, h, follow_append, hdown]
    congr 1
    by_cases hs : s = "" ∧ trimEnd init = []
    · have hinit := follow_trimEnd [] s init
      rw [if_pos hs] at hdir
      rw [landing, startOf_of_segments hdir, hdir, if_pos ⟨hs.1, by simp⟩, if_pos ⟨rfl, by simp⟩,
        ← hinit, hs.1, hs.2]
      rfl
    · rw [if_neg hs] at hdir
      rw [landing, startOf_of_segments hdir, hdir, follow_trimEnd]
      by_cases he : s = ""
      · have ht : trimEnd init ≠ [] := fun ht => hs ⟨he, ht⟩
        simp [he, ht]
      · simp [he]

/-! ### Normal form -/

/-- Components of a path on top of the root, innermost first. -/
theorem foldl_resolveOnto (l : Location) (ps : List String) :
    (ps.filterMap componentOf?).foldl resolveOnto ((l.map Component.name).reverse ++ [.root]) =
      ((follow l ps).map Component.name).reverse ++ [.root] := by
  induction ps generalizing l with
  | nil => rfl
  | cons p ps ih =>
    obtain hs | rfl | hdown := piece_cases p
    · have hn : componentOf? p = none := if_pos (by simpa [saysNothing] using hs)
      rw [List.filterMap_cons_none hn, ih, follow_cons_nothing _ _ hs]
    · have hc : componentOf? ".." = some .up := by decide
      rw [List.filterMap_cons_some hc, List.foldl_cons, follow_cons_up, ← ih]
      congr 1
      rcases List.eq_nil_or_concat l with rfl | ⟨l, a, rfl⟩
      · rfl
      · simp [resolveOnto]
    · have hc : componentOf? p = some (.name p) := by
        rw [componentOf?, if_neg (by simpa [saysNothing] using hdown.1), if_neg hdown.2]
      rw [List.filterMap_cons_some hc, List.foldl_cons, follow_cons_down _ _ hdown, ← ih]
      simp [resolveOnto]

/-- The normal form of an absolute path is the way from the root to where it leads. -/
theorem resolved_eq_landing {p : Path} (h : p.isAbsolute = true) (here : Location) :
    resolved p.components = .root :: (landing here p).map Component.name := by
  have hfold := foldl_resolveOnto [] p.segments
  rw [resolved, components, if_pos h, List.foldl_cons, landing, startOf_of_isAbsolute h]
  simp only [List.map_nil, List.reverse_nil, List.nil_append] at hfold
  rw [show resolveOnto [] Component.root = [.root] from rfl, hfold]
  simp

/-- Absolute paths that lead to one place have one normal form. -/
theorem normalize_eq_of_landing {p q : Path} (hp : p.isAbsolute = true)
    (hq : q.isAbsolute = true) (h : landing [] p = landing [] q) : normalize p = normalize q := by
  rw [normalize, normalize, resolved_eq_landing hp [], resolved_eq_landing hq [], h]

end Path

end FileRoutes
