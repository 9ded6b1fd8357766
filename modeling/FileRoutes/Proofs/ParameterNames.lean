import FileRoutes.Proofs.RouteShapes

/-!
# The names of parameters

A pattern tells where the name of a parameter begins and not where it ends: it goes on as long as
there are characters that a name may hold. The bracket that closes a parameter is not written, so
that the names in brackets are read back where no such character follows it. What stands in the
extension of a file is no part of its route, in brackets or not.

## The model

* `parameterNames` — the names of the parameters of a pattern, as a server reads them.
* `HoldsNames` — characters whose names in brackets can be names of parameters.
* `NamesEnd` — characters in which a name in brackets ends where its bracket closes.

## What is proved

* `Divides.parameterNames` — the names in one segment, whatever comes behind it.
* `parameterNames_ofPath` — the names in brackets on the way to a file are the names of the
  parameters of its route, in order.
-/

namespace FileRoutes.Route

/-- The names of the parameters of a pattern: behind each colon as many characters as a name may
hold, where there are any. -/
def parameterNames : List Char → List (List Char)
  | [] => []
  | c :: cs =>
    let name := cs.takeWhile isNameCharacter
    if c = ':' ∧ name ≠ [] then name :: parameterNames cs else parameterNames cs

/-- The names in brackets can be names of parameters, and no colon looks like another one. -/
def HoldsNames (cs : List Char) : Prop :=
  ':' ∉ cs ∧ ∀ name ∈ bracketedNames cs, ∀ c ∈ name, isNameCharacter c = true

instance (cs : List Char) : Decidable (HoldsNames cs) :=
  decidable_of_iff
    (':' ∉ cs ∧ (bracketedNames cs).all fun name => name.all isNameCharacter)
    (by simp [HoldsNames])

/-- No bracket that closes a parameter is followed by a character that a name may hold. -/
def NamesEnd (cs : List Char) : Prop :=
  ∀ j < cs.length, Closes cs j → ∀ c ∈ cs[j + 1]?, isNameCharacter c = false

instance (cs : List Char) : Decidable (NamesEnd cs) :=
  decidable_of_iff
    (∀ j < cs.length, Closes cs j → cs[j + 1]?.all (!isNameCharacter ·))
    (by simp [NamesEnd, Option.all_eq_true])

/-! ### Reading names -/

theorem parameterNames_cons_of_ne {c : Char} (h : c ≠ ':') (cs : List Char) :
    parameterNames (c :: cs) = parameterNames cs := by
  rw [parameterNames]
  exact if_neg fun hc => h hc.1

theorem ne_colon_of_isNameCharacter {c : Char} (h : isNameCharacter c = true) : c ≠ ':' := by
  rintro rfl
  exact absurd h (by decide)

/-- Characters without a colon hold no parameter. -/
theorem parameterNames_append {front : List Char} (h : ':' ∉ front) (cs : List Char) :
    parameterNames (front ++ cs) = parameterNames cs := by
  induction front with
  | nil => rfl
  | cons c front ih =>
    obtain ⟨hc, hfront⟩ := not_or.1 (mt List.mem_cons.2 h)
    rw [List.cons_append, parameterNames_cons_of_ne (Ne.symm hc), ih hfront]

/-- The name of a parameter is read up to a character that no name may hold. -/
theorem parameterNames_parameter {name cs : List Char} (hne : name ≠ [])
    (hname : ∀ c ∈ name, isNameCharacter c = true)
    (hend : ∀ c ∈ cs.head?, isNameCharacter c = false) :
    parameterNames (':' :: (name ++ cs)) = name :: parameterNames cs := by
  have hread : (name ++ cs).takeWhile isNameCharacter = name := by
    rw [List.takeWhile_append_of_pos hname]
    cases cs with
    | nil => simp
    | cons c cs => rw [List.takeWhile_cons_of_neg (by simp [hend c rfl]), List.append_nil]
  have hcolon : ':' ∉ name := by
    intro hmem
    exact ne_colon_of_isNameCharacter (hname _ hmem) rfl
  rw [parameterNames]
  simp only [hread, hne, ne_eq, not_false_eq_true, and_self, if_true, parameterNames_append hcolon]

/-! ### Parts of a segment -/

theorem NamesEnd.of_append {cs : List Char} (front : List Char) (h : NamesEnd (front ++ cs)) :
    NamesEnd cs := by
  rintro j - ⟨i, -, hpairs⟩ c hc
  have hright := (pairs_append_right front).2 hpairs
  refine h _ hright.lt_length hright.closes c ?_
  rwa [Nat.add_assoc, List.getElem?_append_right (Nat.le_add_right _ _), Nat.add_sub_cancel_left]

theorem NamesEnd.head {name rest : List Char} (hne : name ≠ [])
    (hfree : ∀ c ∈ name, isBracket c = false) (h : NamesEnd ('[' :: (name ++ ']' :: rest))) :
    ∀ c ∈ rest.head?, isNameCharacter c = false := by
  intro c hc
  have hpairs : Pairs ('[' :: (name ++ ']' :: rest)) 0 (name.length + 1) :=
    pairs_parameter hne hfree
  refine h _ hpairs.lt_length hpairs.closes c ?_
  have hplace : name.length + 1 - name.length = 1 := Nat.add_sub_cancel_left _ _
  rwa [List.getElem?_cons_succ, List.getElem?_append_right (Nat.le_succ _), hplace,
    List.getElem?_cons_succ, ← List.head?_eq_getElem?]

/-- The pattern of some parts begins with a colon, or as the segment does. -/
theorem Divides.head_pattern {cs tail : List Char} {parts : List Part} (h : Divides cs parts)
    {c : Char} (hc : c ∈ (parts.flatMap Part.pattern ++ tail).head?) :
    c = ':' ∨ c ∈ cs.head? ∨ c ∈ tail.head? := by
  cases h with
  | nil => exact .inr (.inr hc)
  | parameter => exact .inl (Option.some.inj hc).symm
  | plain => exact .inr (.inl hc)

/-- The names of the parameters in a segment are its names in brackets, and those behind it follow. -/
theorem Divides.parameterNames {cs tail : List Char} {parts : List Part} (h : Divides cs parts)
    (hcolon : ':' ∉ cs) (hnames : ∀ name ∈ parts.filterMap Part.name?, ∀ c ∈ name,
      isNameCharacter c = true)
    (hend : NamesEnd cs) (htail : ∀ c ∈ tail.head?, isNameCharacter c = false) :
    parameterNames (parts.flatMap Part.pattern ++ tail) =
      parts.filterMap Part.name? ++ parameterNames tail := by
  induction h with
  | nil => rfl
  | @parameter name rest parts hne hfree hrest ih =>
    have hsource : '[' :: (name ++ ']' :: rest) = '[' :: (name ++ [']']) ++ rest := by simp
    have hbehind : ':' ∉ rest := fun hmem => hcolon
      (List.mem_cons_of_mem _ (List.mem_append_right _ (List.mem_cons_of_mem _ hmem)))
    have hname : ∀ c ∈ name, isNameCharacter c = true := hnames name List.mem_cons_self
    have hnext : ∀ c ∈ (parts.flatMap Part.pattern ++ tail).head?, isNameCharacter c = false := by
      intro c hc
      rcases hrest.head_pattern hc with rfl | hc | hc
      · rfl
      · exact hend.head hne hfree c hc
      · exact htail c hc
    rw [List.flatMap_cons, List.append_assoc]
    show Route.parameterNames (':' :: (name ++ (parts.flatMap Part.pattern ++ tail))) =
      name :: (parts.filterMap Part.name? ++ _)
    rw [parameterNames_parameter hne hname hnext,
      ih hbehind (fun n hn => hnames n (List.mem_cons_of_mem _ hn))
        ((hsource ▸ hend).of_append _)]
  | @plain c rest parts hnone hrest ih =>
    obtain ⟨hc, hbehind⟩ := not_or.1 (mt List.mem_cons.2 hcolon)
    rw [List.flatMap_cons, List.append_assoc]
    show Route.parameterNames (c :: (parts.flatMap Part.pattern ++ tail)) =
      parts.filterMap Part.name? ++ _
    rw [parameterNames_cons_of_ne (Ne.symm hc), ih hbehind hnames (hend.of_append [c])]

/-- The same for the pattern of a segment as a whole. -/
theorem parameterNames_writtenSegment {s : String} {tail : List Char}
    (hs : HoldsNames s.toList ∧ NamesEnd s.toList)
    (htail : ∀ c ∈ tail.head?, isNameCharacter c = false) :
    parameterNames ((writtenSegment s).toList ++ tail) =
      bracketedNames s.toList ++ parameterNames tail := by
  obtain ⟨⟨hcolon, hnames⟩, hend⟩ := hs
  obtain ⟨parts, hparts⟩ := exists_divides s.toList
  rw [hparts.bracketedNames] at hnames ⊢
  rw [writtenSegment, String.toList_ofList, hparts.written]
  exact hparts.parameterNames hcolon hnames hend htail

/-! ### Routes -/

/-- A slash ends the names of a segment. -/
theorem parameterNames_joinWith {segments : List String}
    (h : ∀ s ∈ segments, HoldsNames s.toList ∧ NamesEnd s.toList) :
    parameterNames (Text.joinWith '/' (segments.map fun s => (writtenSegment s).toList)) =
      segments.flatMap fun s => bracketedNames s.toList := by
  induction segments with
  | nil => rfl
  | cons s rest ih =>
    have hs := h s List.mem_cons_self
    have hrest := ih fun t ht => h t (List.mem_cons_of_mem _ ht)
    cases rest with
    | nil =>
      have hone := @parameterNames_writtenSegment s [] hs (by simp)
      rw [List.append_nil] at hone
      simpa [Text.joinWith, Route.parameterNames] using hone
    | cons t rest =>
      rw [List.map_cons, Text.joinWith_cons_of_ne_nil _ _ (by simp),
        parameterNames_writtenSegment hs (by simp [isNameCharacter]),
        parameterNames_cons_of_ne (by decide), hrest]
      rfl

/-- A segment that is left out has no names in brackets. -/
theorem flatMap_routeSegments (p : Path) :
    (routeSegments p).flatMap (fun s => bracketedNames s.toList) =
      (sourceSegments p).flatMap fun s => bracketedNames s.toList := by
  simp only [routeSegments]
  split
  · next hindex =>
    obtain ⟨front, hfront⟩ := List.getLast?_eq_some_iff.1 hindex
    have hnone : bracketedNames "index".toList = [] := by decide
    rw [hfront, List.dropLast_concat, List.flatMap_append, List.flatMap_singleton, hnone,
      List.append_nil]
  · rfl

/-- **The names of parameters.** Where the segments of a path hold names without colons in brackets,
none of them with a character of a name right behind it, the names of the parameters of its route
are these names, in order, wherever in a segment they stand. -/
theorem parameterNames_ofPath {p : Path} (hnames : ∀ s ∈ sourceSegments p, HoldsNames s.toList)
    (hend : ∀ s ∈ sourceSegments p, NamesEnd s.toList) :
    parameterNames (ofPath p).toList =
      (sourceSegments p).flatMap fun s => bracketedNames s.toList := by
  have hsegments : ∀ s ∈ routeSegments p, HoldsNames s.toList ∧ NamesEnd s.toList := by
    intro s hs
    have hmem : s ∈ sourceSegments p := by
      simp only [routeSegments] at hs
      split at hs
      · exact List.mem_of_mem_dropLast hs
      · exact hs
    exact ⟨hnames s hmem, hend s hmem⟩
  have hroute : (ofPath p).toList = '/' ::
      Text.joinWith '/' ((routeSegments p).map fun s => (writtenSegment s).toList) := by
    rw [ofPath_eq, String.toList_append, Text.toList_join, List.map_map]
    rfl
  rw [hroute, parameterNames_cons_of_ne (by decide), parameterNames_joinWith hsegments,
    flatMap_routeSegments]

/-- Names in a part of a segment, next to each other and in front of other text. -/
theorem parameterNames_ofPath_sample :
    (∀ s ∈ sourceSegments ⟨"v[major].[minor]/[a][b]-x.ts"⟩, HoldsNames s.toList) ∧
    (∀ s ∈ sourceSegments ⟨"v[major].[minor]/[a][b]-x.ts"⟩, NamesEnd s.toList) ∧
    parameterNames (ofPath ⟨"v[major].[minor]/[a][b]-x.ts"⟩).toList =
      ["major".toList, "minor".toList, "a".toList, "b".toList] := by
  have hsegments : sourceSegments ⟨"v[major].[minor]/[a][b]-x.ts"⟩ =
      ["v[major].[minor]", "[a][b]-x"] := by
    decide +kernel
  have hnames : ∀ s ∈ ["v[major].[minor]", "[a][b]-x"], HoldsNames s.toList := by decide
  have hend : ∀ s ∈ ["v[major].[minor]", "[a][b]-x"], NamesEnd s.toList := by decide
  rw [parameterNames_ofPath (hsegments ▸ hnames) (hsegments ▸ hend), hsegments]
  exact ⟨hnames, hend, by decide⟩

/-- A name goes on behind its bracket where it can, and what is in the extension is left out. -/
theorem parameterNames_astray :
    ((∀ s ∈ Path.names ⟨"[id]x.ts"⟩, HoldsNames s.toList) ∧
      (Path.names ⟨"[id]x.ts"⟩).flatMap (fun s => bracketedNames s.toList) = ["id".toList] ∧
      parameterNames (ofPath ⟨"[id]x.ts"⟩).toList = ["idx".toList]) ∧
    (∀ s ∈ Path.names ⟨"a.[id]"⟩, HoldsNames s.toList) ∧
      (Path.names ⟨"a.[id]"⟩).flatMap (fun s => bracketedNames s.toList) = ["id".toList] ∧
      parameterNames (ofPath ⟨"a.[id]"⟩).toList = [] := by
  have hfirst : Path.names ⟨"[id]x.ts"⟩ = ["[id]x.ts"] ∧ ofPath ⟨"[id]x.ts"⟩ = "/:idx" := by
    decide +kernel
  have hsecond : Path.names ⟨"a.[id]"⟩ = ["a.[id]"] ∧ ofPath ⟨"a.[id]"⟩ = "/a" := by
    decide +kernel
  rw [hfirst.1, hfirst.2, hsecond.1, hsecond.2]
  decide

end FileRoutes.Route
