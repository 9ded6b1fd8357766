import FileRoutes.Proofs.Brackets
import FileRoutes.Proofs.Reachability

/-!
# The shape of a route

The route of a file starts with a slash and has no empty segment, so that it ends with a slash only
where it is nothing else. Its segments are the names on the way to the file, the last one without its
extension; a last segment `index` is left out. In each segment the brackets of a parameter become a
colon in front of its name, and every other character stays where it is.

## The model

* `Stem` — what is left of a name without its extension.
* `Segments` — the segments that the names of a path come to.
* `segmentsOf` — the segments of a route.
* `IsRouteOf` — what the route of a path looks like.
* `DifferInExtension` — paths that differ in what stands behind the last dot.

## What is proved

* `stem_iff` — the stem of a name, by its last dot.
* `segmentsOf_ofPath` — the segments of the route of a path.
* `isRouteOf_ofPath` — every path has a route of this shape, and another extension does not change
  it.
-/

namespace FileRoutes

/-! ### Names -/

namespace Path

/-- A name on a path says something and holds no slash. -/
theorem of_mem_names {p : Path} {s : String} (h : s ∈ p.names) : s ≠ "" ∧ '/' ∉ s.toList := by
  rw [names_eq] at h
  obtain ⟨segment, hsegment, hname⟩ := List.mem_filterMap.1 h
  obtain ⟨c, hc, hs⟩ := Option.bind_eq_some_iff.1 hname
  unfold componentOf? at hc
  split at hc
  · cases hc
  · next hnothing =>
    split at hc
    · obtain rfl := Option.some.inj hc
      cases hs
    · obtain rfl := Option.some.inj hc
      obtain rfl := Option.some.inj hs
      exact ⟨fun hempty => hnothing (.inl hempty), not_mem_of_mem_segments hsegment⟩

end Path

namespace Route

/-- What is left of a name without its extension. -/
inductive Stem : String → String → Prop
  /-- What stands before the last dot, if there is anything. -/
  | cut (stem extension : List Char) (ne : stem ≠ []) (dotless : '.' ∉ extension) :
      Stem (String.ofList (stem ++ '.' :: extension)) (String.ofList stem)
  /-- A name without a dot, apart from one at its start. -/
  | whole (name : String) (dotless : '.' ∉ name.toList.tail) : Stem name name

theorem splitName_cut {stem extension : List Char} (hne : stem ≠ []) (hdot : '.' ∉ extension) :
    (Path.splitName (String.ofList (stem ++ '.' :: extension))).1 = String.ofList stem := by
  obtain ⟨c, before, hstem⟩ := List.exists_cons_of_ne_nil (mt List.reverse_eq_nil_iff.1 hne)
  have hreverse : (stem ++ '.' :: extension).reverse = extension.reverse ++ '.' :: c :: before := by
    rw [← hstem]
    simp
  have hdrop : (extension.reverse ++ '.' :: c :: before).dropWhile (· ≠ '.') =
      '.' :: c :: before := by
    rw [List.dropWhile_append_of_pos]
    · rfl
    · intro d hd
      have : d ≠ '.' := by
        rintro rfl
        exact hdot (List.mem_reverse.1 hd)
      simpa using this
  have hback : (c :: before).reverse = stem := by rw [← hstem, List.reverse_reverse]
  simp only [Path.splitName, String.toList_ofList, hreverse, hdrop, hback]

theorem splitName_whole {name : String} (hdot : '.' ∉ name.toList.tail) :
    (Path.splitName name).1 = name := by
  unfold Path.splitName
  cases hname : name.toList with
  | nil => rfl
  | cons c rest =>
    rw [hname, List.tail_cons] at hdot
    have hdrop : (rest.reverse ++ [c]).dropWhile (· ≠ '.') = [c].dropWhile (· ≠ '.') := by
      apply List.dropWhile_append_of_pos
      intro d hd
      have : d ≠ '.' := by
        rintro rfl
        exact hdot (List.mem_reverse.1 hd)
      simpa using this
    rw [List.reverse_cons]
    simp only [hdrop]
    by_cases hc : c = '.'
    · rw [hc]
      rfl
    · rw [List.dropWhile_cons_of_pos (by simpa using hc)]
      rfl

/-- The stem of a name is found at its last dot. -/
theorem stem_iff {name stem : String} : Stem name stem ↔ (Path.splitName name).1 = stem := by
  constructor
  · rintro (⟨stem, extension, hne, hdot⟩ | ⟨_, hdot⟩)
    · exact splitName_cut hne hdot
    · exact splitName_whole hdot
  · rintro rfl
    by_cases hdot : '.' ∈ name.toList.tail
    · obtain ⟨extension, stem, hsplit, hlast⟩ :=
        List.eq_append_cons_of_mem (List.mem_reverse.2 hdot)
      obtain ⟨c, hc⟩ : ∃ c, name.toList = c :: name.toList.tail := by
        cases hname : name.toList with
        | nil => simp [hname] at hdot
        | cons c rest => exact ⟨c, rfl⟩
      have htail : name.toList.tail = stem.reverse ++ '.' :: extension.reverse := by
        rw [← List.reverse_reverse name.toList.tail, hsplit]
        simp
      have hname : name = String.ofList ((c :: stem.reverse) ++ '.' :: extension.reverse) := by
        rw [← String.toList_inj, hc, htail, String.toList_ofList]
        rfl
      have hreverse : '.' ∉ extension.reverse := mt List.mem_reverse.1 hlast
      rw [hname, splitName_cut (List.cons_ne_nil _ _) hreverse]
      exact .cut _ _ (List.cons_ne_nil _ _) hreverse
    · rw [splitName_whole hdot]
      exact .whole name hdot

theorem Stem.ne_empty {name stem : String} (h : Stem name stem) (hne : name ≠ "") : stem ≠ "" := by
  cases h with
  | cut stem extension hstem _ =>
    intro hempty
    apply hstem
    rw [← String.toList_ofList (l := stem), hempty]
    rfl
  | whole => exact hne

theorem Stem.mem {name stem : String} (h : Stem name stem) {c : Char} (hc : c ∈ stem.toList) :
    c ∈ name.toList := by
  cases h with
  | cut stem extension _ _ =>
    rw [String.toList_ofList] at hc ⊢
    exact List.mem_append_left _ hc
  | whole => exact hc

/-! ### Segments -/

/-- The segments that the names of a path come to. -/
inductive Segments : List String → List String → Prop
  /-- A path without names has none. -/
  | nothing : Segments [] []
  /-- The last name is left out where its stem is `index`. -/
  | index (before : List String) {last : String} (h : Stem last "index") :
      Segments (before ++ [last]) before
  /-- Otherwise its stem comes behind the names before it. -/
  | named (before : List String) {last stem : String} (h : Stem last stem) (ne : stem ≠ "index") :
      Segments (before ++ [last]) (before ++ [stem])

theorem sourceSegments_nil {p : Path} (h : p.names = []) : sourceSegments p = [] := by
  rw [sourceSegments, h]
  rfl

theorem sourceSegments_concat {p : Path} {before : List String} {last : String}
    (h : p.names = before ++ [last]) :
    sourceSegments p = before ++ [(Path.splitName last).1] := by
  rw [sourceSegments, h, List.reverse_append]
  show before.reverse.reverse ++ _ = _
  rw [List.reverse_reverse]

/-- The segments of a route are those that the names of its path come to. -/
theorem segments_routeSegments (p : Path) : Segments p.names (routeSegments p) := by
  rcases List.eq_nil_or_concat p.names with hnames | ⟨before, last, hnames⟩
  · rw [routeSegments, sourceSegments_nil hnames, hnames]
    exact .nothing
  · rw [List.concat_eq_append] at hnames
    rw [routeSegments, sourceSegments_concat hnames, hnames]
    by_cases hindex : (Path.splitName last).1 = "index"
    · simp only [List.getLast?_concat, hindex, if_true, List.dropLast_concat]
      exact .index before (stem_iff.2 hindex)
    · simp only [List.getLast?_concat, Option.some.injEq, hindex, if_false]
      exact .named before (stem_iff.2 rfl) hindex

/-- A segment of a route says something and holds no slash. -/
theorem Segments.of_mem {names segments : List String} (h : Segments names segments)
    (hnames : ∀ s ∈ names, s ≠ "" ∧ '/' ∉ s.toList) {s : String} (hs : s ∈ segments) :
    s ≠ "" ∧ '/' ∉ s.toList := by
  cases h with
  | nothing => cases hs
  | index before h => exact hnames s (List.mem_append_left _ hs)
  | @named before last stem h _ =>
    rcases List.mem_append.1 hs with hs | hs
    · exact hnames s (List.mem_append_left _ hs)
    · obtain rfl := List.mem_singleton.1 hs
      obtain ⟨hne, hslash⟩ := hnames last (List.mem_append_right _ List.mem_cons_self)
      exact ⟨h.ne_empty hne, mt h.mem hslash⟩

/-! ### Patterns of segments -/

/-- A segment with what is written for its characters. -/
def writtenSegment (segment : String) : String := String.ofList (written segment.toList)

theorem segmentPattern_eq_written (segment : String) :
    segmentPattern segment = writtenSegment segment := by
  rw [segmentPattern, parameterize_eq_written, writtenSegment]

theorem Part.pattern_ne_nil (p : Part) : p.pattern ≠ [] := by
  cases p <;> exact List.cons_ne_nil _ _

/-- A character of a pattern is a colon or one of the segment. -/
theorem Divides.mem_of_mem_pattern {cs : List Char} {parts : List Part} (h : Divides cs parts)
    {c : Char} (hc : c ∈ parts.flatMap Part.pattern) : c = ':' ∨ c ∈ cs := by
  induction h with
  | nil => cases hc
  | parameter _ _ _ ih =>
    rw [List.flatMap_cons, List.mem_append] at hc
    rcases hc with hc | hc
    · rcases List.mem_cons.1 hc with rfl | hc
      · exact .inl rfl
      · exact .inr (List.mem_cons_of_mem _ (List.mem_append_left _ hc))
    · rcases ih hc with hcolon | hc
      · exact .inl hcolon
      · exact .inr (List.mem_cons_of_mem _ (List.mem_append_right _ (List.mem_cons_of_mem _ hc)))
  | plain _ _ ih =>
    rw [List.flatMap_cons, List.mem_append] at hc
    rcases hc with hc | hc
    · obtain rfl := List.mem_singleton.1 hc
      exact .inr List.mem_cons_self
    · rcases ih hc with hcolon | hc
      · exact .inl hcolon
      · exact .inr (List.mem_cons_of_mem _ hc)

/-- The pattern of a segment says something and holds no slash. -/
theorem writtenSegment_of {segment : String} (h : segment ≠ "" ∧ '/' ∉ segment.toList) :
    writtenSegment segment ≠ "" ∧ '/' ∉ (writtenSegment segment).toList := by
  obtain ⟨parts, hparts⟩ := exists_divides segment.toList
  rw [writtenSegment, hparts.written, String.toList_ofList]
  constructor
  · intro hempty
    have hnil : parts.flatMap Part.pattern = [] := by
      simpa using congrArg String.toList hempty
    cases parts with
    | nil =>
      have : segment.toList = [] := by
        generalize segment.toList = cs at hparts
        cases hparts
        rfl
      exact h.1 (String.toList_eq_nil_iff.1 this)
    | cons p parts =>
      rw [List.flatMap_cons, List.append_eq_nil_iff] at hnil
      exact p.pattern_ne_nil hnil.1
  · intro hslash
    rcases hparts.mem_of_mem_pattern hslash with hcolon | hmem
    · exact absurd hcolon (by decide)
    · exact h.2 hmem

/-! ### Routes -/

/-- The segments of a route. -/
def segmentsOf (route : String) : List String :=
  if route = "/" then [] else (Text.split '/' route).tail

/-- What the route of a path looks like. -/
structure IsRouteOf (p : Path) (route : String) : Prop where
  /-- It starts with a slash. -/
  starts : route.toList.head? = some '/'
  /-- Its segments are those of the path, with the parameters in brackets replaced. -/
  segments : ∃ segments, Segments p.names segments ∧
    segmentsOf route = segments.map writtenSegment
  /-- None of its segments is empty. -/
  nonempty : "" ∉ segmentsOf route
  /-- It ends with a slash only where it is nothing else. -/
  ends : route.toList.getLast? = some '/' → route = "/"

/-- Paths that differ at most in what stands behind the last dot of the last name. -/
def DifferInExtension (p q : Path) : Prop :=
  ∃ (before : List String) (stem extension other : String), stem ≠ "" ∧
    '.' ∉ extension.toList ∧ '.' ∉ other.toList ∧
    p.names = before ++ [stem ++ "." ++ extension] ∧ q.names = before ++ [stem ++ "." ++ other]

theorem ofPath_eq (p : Path) :
    ofPath p = "/" ++ Text.join "/" ((routeSegments p).map writtenSegment) := by
  rw [ofPath, List.map_congr_left fun s _ => segmentPattern_eq_written s]

theorem of_mem_patterns {p : Path} {s : String}
    (hs : s ∈ (routeSegments p).map writtenSegment) : s ≠ "" ∧ '/' ∉ s.toList := by
  obtain ⟨segment, hsegment, rfl⟩ := List.mem_map.1 hs
  exact writtenSegment_of
    ((segments_routeSegments p).of_mem (fun _ => Path.of_mem_names) hsegment)

/-- A slash cuts a route in front of each of its segments. -/
theorem split_ofPath {p : Path} (h : routeSegments p ≠ []) :
    Text.split '/' (ofPath p) = "" :: (routeSegments p).map writtenSegment := by
  have hroute : ofPath p =
      "" ++ "/" ++ Text.join "/" ((routeSegments p).map writtenSegment) := by
    rw [ofPath_eq, String.empty_append]
  rw [hroute, Text.split_append, Text.split_join (by simpa using h) fun s hs =>
    (of_mem_patterns hs).2]
  rfl

theorem segmentsOf_ofPath (p : Path) :
    segmentsOf (ofPath p) = (routeSegments p).map writtenSegment := by
  by_cases h : routeSegments p = []
  · have hroute : ofPath p = "/" := by
      rw [ofPath_eq, h]
      rfl
    rw [hroute, h]
    rfl
  · have hsplit := split_ofPath h
    have hne : ofPath p ≠ "/" := by
      -- The root is cut into nothing but empty pieces.
      intro hroot
      rw [hroot] at hsplit
      have hrest : [""] = (routeSegments p).map writtenSegment := (List.cons.inj hsplit).2
      exact (of_mem_patterns (hrest ▸ List.mem_singleton_self "")).1 rfl
    rw [segmentsOf, if_neg hne, hsplit, List.tail_cons]

/-- Only the root ends with a slash. -/
theorem eq_root_of_getLast {p : Path} (h : (ofPath p).toList.getLast? = some '/') :
    ofPath p = "/" := by
  by_contra hne
  have hsegments : routeSegments p ≠ [] := by
    intro hnil
    apply hne
    rw [ofPath_eq, hnil]
    rfl
  obtain ⟨front, hfront⟩ := List.getLast?_eq_some_iff.1 h
  have hlast : Text.split '/' (ofPath p) =
      (Text.pieces '/' front).map String.ofList ++ [""] := by
    rw [Text.split, hfront, Text.pieces_append_cons, List.map_append]
    rfl
  have hpatterns : (routeSegments p).map writtenSegment ≠ [] := by simpa using hsegments
  have hmem : "" ∈ (routeSegments p).map writtenSegment := by
    have hend := congrArg List.getLast? hlast
    rw [split_ofPath hsegments, List.getLast?_concat, List.getLast?_cons_of_ne_nil hpatterns] at hend
    exact List.mem_of_getLast? hend
  exact (of_mem_patterns hmem).1 rfl

theorem routeSegments_congr {p q : Path} (h : DifferInExtension p q) :
    routeSegments q = routeSegments p := by
  obtain ⟨before, stem, extension, other, hne, hdot, hother, hp, hq⟩ := h
  have hstem : ∀ e : String, '.' ∉ e.toList → (Path.splitName (stem ++ "." ++ e)).1 = stem := by
    intro e he
    have hname : stem ++ "." ++ e = String.ofList (stem.toList ++ '.' :: e.toList) := by
      rw [← String.toList_inj, String.toList_ofList]
      simp
    rw [hname, splitName_cut (mt String.toList_eq_nil_iff.1 hne) he, String.ofList_toList]
  rw [routeSegments, routeSegments, sourceSegments_concat hp, sourceSegments_concat hq,
    hstem _ hdot, hstem _ hother]

/-- **The shape of a route.** The route of a path starts with a slash and has no empty segment; its
segments are the names of the path, the last one without its extension and left out where that is
`index`, each with its parameters in brackets replaced place by place; and it ends with a slash only
where it is the root. A path that differs in its extension has the same route. -/
theorem isRouteOf_ofPath (p : Path) :
    IsRouteOf p (ofPath p) ∧ ∀ q, DifferInExtension p q → ofPath q = ofPath p := by
  refine ⟨⟨?_, ?_, ?_, eq_root_of_getLast⟩, ?_⟩
  · simp [ofPath_eq]
  · exact ⟨_, segments_routeSegments p, segmentsOf_ofPath p⟩
  · intro hempty
    rw [segmentsOf_ofPath] at hempty
    exact (of_mem_patterns hempty).1 rfl
  · intro q hq
    rw [ofPath_eq, ofPath_eq, routeSegments_congr hq]

/-- A path with a parameter, and one to the same file with another extension. -/
theorem isRouteOf_sample :
    DifferInExtension ⟨"./users/../[id].v1.ts"⟩ ⟨"users/[id].v1.js"⟩ ∧
    IsRouteOf ⟨"./users/../[id].v1.ts"⟩ "/users/:id.v1" ∧
      ofPath ⟨"users/[id].v1.js"⟩ = "/users/:id.v1" := by
  have hroute : ofPath ⟨"./users/../[id].v1.ts"⟩ = "/users/:id.v1" := by decide +kernel
  have hdiffer : DifferInExtension ⟨"./users/../[id].v1.ts"⟩ ⟨"users/[id].v1.js"⟩ := by
    refine ⟨["users"], "[id].v1", "ts", "js", by decide, by decide, by decide, ?_, ?_⟩
    · decide +kernel
    · decide +kernel
  obtain ⟨hshape, hsame⟩ := isRouteOf_ofPath ⟨"./users/../[id].v1.ts"⟩
  rw [hroute] at hshape hsame
  exact ⟨hdiffer, hshape, hsame _ hdiffer⟩

end Route

end FileRoutes
