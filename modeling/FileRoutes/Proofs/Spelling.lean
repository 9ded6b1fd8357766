import FileRoutes.Proofs.Beginnings
import FileRoutes.Proofs.Trees

/-!
# Paths spelled by their components

Not every list of components is the list of components of a path: the root stands in front, a name
has to go down and to hold no slash. What can be spelled is read back as it was, a component that
is joined to the text stands behind the others, and the directory of what ends in a name is spelled
without the name.

## The model

* `Component.IsPiece` — a component that stands between slashes and is read back from there.
* `Spellable` — pieces, with or without the root in front of them.

## What is proved

* `exists_components` — the root stands in front of the components of an absolute path only.
* `isPiece_of_mem_components` — what else there is in a path, a leading `.` apart, are pieces.
* `Spellable.components_ofComponents` — spelled components are read back.
* `Spellable.child_ofComponents`, `Spellable.directory_ofComponents` — a last component is added to
  the text and taken off it.
-/

namespace FileRoutes.Path

open FileSystem (saysNothing)

/-! ### Components of a path -/

/-- The root stands in front of the components of an absolute path, and nowhere else. -/
theorem exists_components (p : Path) :
    ∃ tail, .root ∉ tail ∧ p.components = if p.isAbsolute then .root :: tail else tail := by
  have hpieces : ∀ ps : List String, .root ∉ ps.filterMap componentOf? := by
    intro ps hm
    obtain ⟨s, -, hs⟩ := List.mem_filterMap.1 hm
    unfold componentOf? at hs
    split at hs
    · cases hs
    · split at hs <;> cases hs
  rw [components_eq, heading]
  cases p.isAbsolute with
  | true => exact ⟨_, hpieces _, rfl⟩
  | false =>
    refine ⟨_, ?_, rfl⟩
    intro hm
    rcases List.mem_append.1 hm with hm | hm
    · rw [if_neg (by simp)] at hm
      split at hm <;> simp at hm
    · exact hpieces _ hm

/-- A component that stands between slashes and is read back from its spelling. -/
structure Component.IsPiece (c : Component) : Prop where
  /-- Its spelling stands for it. -/
  read : componentOf? c.text = some c
  /-- There is no slash in its spelling. -/
  noSlash : '/' ∉ c.text.toList

namespace Component.IsPiece

variable {c : Component} (h : c.IsPiece)
include h

theorem saysNothing_eq : saysNothing c.text = false := by
  have hread := h.read
  unfold componentOf? at hread
  split at hread
  · cases hread
  · next hnot => simpa [saysNothing] using hnot

theorem text_ne_empty : c.text ≠ "" := by
  intro he
  have hsays := h.saysNothing_eq
  rw [he] at hsays
  exact absurd hsays (by decide)

theorem text_ne_dot : c.text ≠ "." := by
  intro he
  have hsays := h.saysNothing_eq
  rw [he] at hsays
  exact absurd hsays (by decide)

theorem ne_root : c ≠ .root := by
  rintro rfl
  exact absurd h.noSlash (by decide)

end Component.IsPiece

theorem isPiece_up : Component.up.IsPiece := ⟨by decide, by decide⟩

/-- The components of a path, the root and a leading `.` apart, are pieces. -/
theorem isPiece_of_mem_components {p : Path} {c : Component} (h : c ∈ p.components)
    (hroot : c ≠ .root) (hhere : c ≠ .here) : c.IsPiece := by
  cases c with
  | root => exact absurd rfl hroot
  | here => exact absurd rfl hhere
  | up => exact isPiece_up
  | name s =>
    obtain ⟨hdown, hslash⟩ := mem_names (p := p) (List.mem_filterMap.2 ⟨.name s, h, rfl⟩)
    exact ⟨componentOf_of_goesDown hdown, hslash⟩

/-! ### Spelling pieces -/

section pieces

variable {cs : List Component} (h : ∀ c ∈ cs, c.IsPiece)
include h

theorem ofComponents_of_pieces : ofComponents cs = ⟨Text.join "/" (cs.map Component.text)⟩ := by
  unfold ofComponents
  split
  · exact absurd rfl (h .root List.mem_cons_self).ne_root
  · rfl

theorem filterMap_componentOf_texts : (cs.map Component.text).filterMap componentOf? = cs := by
  induction cs with
  | nil => rfl
  | cons c cs ih =>
    rw [List.map_cons, List.filterMap_cons_some (h c List.mem_cons_self).read,
      ih fun d hd => h d (List.mem_cons_of_mem _ hd)]

theorem segments_of_pieces (hne : cs ≠ []) :
    (ofComponents cs).segments = cs.map Component.text := by
  rw [ofComponents_of_pieces h]
  refine segments_join (by simpa using hne) fun t ht => ?_
  obtain ⟨c, hc, rfl⟩ := List.mem_map.1 ht
  exact (h c hc).noSlash

/-- The root is spelled as an empty piece in front of the others, and of another empty one if there
is nothing else. -/
theorem segments_of_root : (ofComponents (.root :: cs)).segments =
    "" :: if cs = [] then [""] else cs.map Component.text := by
  have hroot : (ofComponents (.root :: cs)).text = "" ++ "/" ++ (ofComponents cs).text := by
    rw [ofComponents_of_pieces h, String.empty_append]
    rfl
  have hempty : Text.split '/' "" = [""] := by decide
  rw [segments, hroot, Text.split_append, hempty]
  split
  · next hnil =>
    rw [hnil]
    decide
  · next hne =>
    rw [← segments_of_pieces h hne]
    rfl

theorem isAbsolute_of_pieces : (ofComponents cs).isAbsolute = false := by
  cases cs with
  | nil => decide
  | cons c cs =>
    refine Bool.eq_false_iff.2 fun ha => (h c List.mem_cons_self).text_ne_empty ?_
    exact ((isAbsolute_iff_segments (segments_of_pieces h (by simp))).1 ha).1

/-- The last piece says something, so nothing is trimmed. -/
theorem trimEnd_texts : trimEnd (cs.map Component.text) = cs.map Component.text := by
  rcases List.eq_nil_or_concat cs with rfl | ⟨init, last, rfl⟩
  · rfl
  · have hlast : last.IsPiece := h last (by simp)
    rw [List.concat_eq_append, List.map_append, List.map_singleton,
      trimEnd_concat hlast.saysNothing_eq]

theorem getLast_texts : (cs.map Component.text).getLast? ≠ some "" := by
  intro hl
  obtain ⟨c, hc, he⟩ := List.mem_map.1 (List.mem_of_getLast? hl)
  exact (h c hc).text_ne_empty he

end pieces

theorem isAbsolute_of_root (cs : List Component) :
    (ofComponents (.root :: cs)).isAbsolute = true := by
  simp [ofComponents, isAbsolute]

/-! ### A last component -/

/-- A path whose last piece is not empty gets a slash before what is joined to it. -/
theorem child_of_getLast {p : Path} (h : p.segments.getLast? ≠ some "") {s : String}
    (hs : isAbsolute ⟨s⟩ = false) : p.child s = ⟨p.text ++ "/" ++ s⟩ := by
  have hempty : Text.split '/' "" = [""] := by decide
  have hslash : ¬ p.text.toList.getLast? = some '/' := by
    intro hl
    obtain ⟨t, ht⟩ := exists_of_getLast_slash hl
    have hblank : t ++ "/" = t ++ "/" ++ "" := by simp
    apply h
    rw [segments, ht, hblank, Text.split_append, hempty]
    simp
  have htext : ¬ p.text = "" := by
    intro he
    apply h
    rw [segments, he, hempty]
    rfl
  rw [child, join, if_neg (by simp [hs]), if_neg htext, if_neg hslash]

theorem Component.IsPiece.not_isAbsolute {c : Component} (h : c.IsPiece) :
    isAbsolute ⟨c.text⟩ = false := by
  have hone : ∀ d ∈ [c], d.IsPiece := by simpa using h
  have hrelative := isAbsolute_of_pieces hone
  rwa [ofComponents_of_pieces hone] at hrelative

section last

variable {cs : List Component} (h : ∀ d ∈ cs, d.IsPiece) {c : Component} (hc : c.IsPiece)
include h hc

theorem isPiece_of_mem_concat : ∀ d ∈ cs ++ [c], d.IsPiece := by
  intro d hd
  rcases List.mem_append.1 hd with hd | hd
  · exact h d hd
  · rwa [List.mem_singleton.1 hd]

theorem child_of_pieces : (ofComponents cs).child c.text = ofComponents (cs ++ [c]) := by
  rw [ofComponents_of_pieces (isPiece_of_mem_concat h hc), List.map_append, List.map_singleton]
  by_cases hne : cs = []
  · subst hne
    rw [child, join, if_neg (by simp [hc.not_isAbsolute])]
    rfl
  · have hlast : (ofComponents cs).segments.getLast? ≠ some "" := by
      rw [segments_of_pieces h hne]
      exact getLast_texts h
    have htext := text_ofNames_concat (l := cs.map Component.text) (by simpa using hne) c.text
    rw [child_of_getLast hlast hc.not_isAbsolute, ofComponents_of_pieces h]
    exact congrArg Path.mk htext.symm

theorem child_of_root :
    (ofComponents (.root :: cs)).child c.text = ofComponents (.root :: (cs ++ [c])) := by
  by_cases hne : cs = []
  · subst hne
    rw [child, join, if_neg (by simp [hc.not_isAbsolute])]
    rfl
  · obtain ⟨d, ds, hcs⟩ := List.exists_cons_of_ne_nil hne
    have hlast : (ofComponents (.root :: cs)).segments.getLast? ≠ some "" := by
      rw [segments_of_root h, if_neg hne, hcs, List.map_cons, List.getLast?_cons_cons,
        ← List.map_cons, ← hcs]
      exact getLast_texts h
    have htext : Text.join "/" (cs.map Component.text ++ [c.text]) =
        Text.join "/" (cs.map Component.text) ++ "/" ++ c.text :=
      text_ofNames_concat (by simpa using hne) c.text
    rw [child_of_getLast hlast hc.not_isAbsolute, ofComponents, ofComponents, List.map_append,
      List.map_singleton, htext]
    simp only [String.append_assoc]

theorem directory_of_pieces : (ofComponents (cs ++ [c])).directory = ofComponents cs := by
  have hsegments := segments_of_pieces (isPiece_of_mem_concat h hc) (by simp)
  cases cs with
  | nil => exact directory_of_name hsegments hc.saysNothing_eq (by simp)
  | cons d ds =>
    rw [List.cons_append, List.map_cons, List.map_append, List.map_singleton] at hsegments
    rw [List.cons_append, directory_of_cons hsegments hc.saysNothing_eq (by simp),
      if_neg fun he => (h d List.mem_cons_self).text_ne_empty he.1,
      trimEnd_texts fun e he => h e (List.mem_cons_of_mem _ he), ofComponents_of_pieces h,
      List.map_cons]

theorem directory_of_root :
    (ofComponents (.root :: (cs ++ [c]))).directory = ofComponents (.root :: cs) := by
  have hsegments : (ofComponents (.root :: (cs ++ [c]))).segments =
      "" :: (cs.map Component.text ++ c.text :: []) := by
    rw [segments_of_root (isPiece_of_mem_concat h hc), if_neg (by simp), List.map_append]
    rfl
  rw [directory_of_cons hsegments hc.saysNothing_eq (by simp), trimEnd_texts h]
  cases cs with
  | nil => decide
  | cons d ds => simp [ofComponents, Text.join]

end last

/-! ### What can be spelled -/

/-- Components that can be spelled: pieces, with or without the root in front of them. -/
inductive Spellable : List Component → Prop
  /-- A relative path. -/
  | relative {cs : List Component} (pieces : ∀ c ∈ cs, c.IsPiece) : Spellable cs
  /-- An absolute path. -/
  | absolute {cs : List Component} (pieces : ∀ c ∈ cs, c.IsPiece) : Spellable (.root :: cs)

/-- What is in normal form can be spelled if its names can. -/
theorem Resolved.spellable {cs : List Component} (h : Resolved cs)
    (hnames : ∀ s, .name s ∈ cs → (Component.name s).IsPiece) : Spellable cs := by
  cases h with
  | absolute hall =>
    refine .absolute fun c hc => ?_
    obtain ⟨s, rfl⟩ := hall c hc
    exact hnames s (List.mem_cons_of_mem _ hc)
  | relative n hall =>
    refine .relative fun c hc => ?_
    rcases List.mem_append.1 hc with hup | hname
    · rw [List.eq_of_mem_replicate hup]
      exact isPiece_up
    · obtain ⟨s, rfl⟩ := hall c hname
      exact hnames s hc

namespace Spellable

variable {cs : List Component} (h : Spellable cs)
include h

/-- Components that can be spelled are read back from their spelling. -/
theorem components_ofComponents : (ofComponents cs).components = cs := by
  cases h with
  | @absolute cs hpieces =>
    rw [components, if_pos (isAbsolute_of_root cs), segments_of_root hpieces]
    split
    · next hnil =>
      rw [hnil]
      decide
    · have hnothing : componentOf? "" = none := by decide
      rw [List.filterMap_cons_none hnothing, filterMap_componentOf_texts hpieces]
  | relative hpieces =>
    cases cs with
    | nil => decide
    | cons c cs =>
      rw [components_eq, heading, isAbsolute_of_pieces hpieces,
        segments_of_pieces hpieces (by simp), filterMap_componentOf_texts hpieces]
      simp [(hpieces c List.mem_cons_self).text_ne_dot]

variable {c : Component} (hc : c.IsPiece)
include hc

/-- A piece that is joined to spelled components is spelled behind them. -/
theorem child_ofComponents : (ofComponents cs).child c.text = ofComponents (cs ++ [c]) := by
  cases h with
  | absolute hpieces => exact child_of_root hpieces hc
  | relative hpieces => exact child_of_pieces hpieces hc

/-- The directory of spelled components is spelled without the last one. -/
theorem directory_ofComponents : (ofComponents (cs ++ [c])).directory = ofComponents cs := by
  cases h with
  | absolute hpieces => exact directory_of_root hpieces hc
  | relative hpieces => exact directory_of_pieces hpieces hc

end Spellable

/-- What is spelled ends in a name if its last component is one. -/
theorem Spellable.fileName_ofComponents {cs : List Component} {c : Component}
    (h : Spellable (cs ++ [c])) : (ofComponents (cs ++ [c])).fileName? = c.name? := by
  rw [fileName?, h.components_ofComponents, List.getLast?_concat]
  rfl

end FileRoutes.Path
