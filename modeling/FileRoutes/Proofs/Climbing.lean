import FileRoutes.Proofs.Specifiers

/-!
# Specifiers between relative paths

Two relative paths start from one directory that neither of them names. A path says how often it
goes up from there, and then which names it goes down. A module that stands further up than its
target cannot import it by any text: the way back down leads through directories whose names
are not known. In every other case the specifier leads to the target.

## The model

* `Stand` — where a relative path stands: how often up, and which names below.
* `Stand.wander` — where some pieces lead from there.
* `climb` — how often the normal form of a path goes up.

## What is proved

* `resolved_eq_stand` — the normal form of a relative path is the way to where it stands.
* `ups_le_wander` — no piece takes back what was climbed.
* `specifier_leads_iff` — the specifier leads to its target exactly where any text does, and that
  is where the target goes up at least as often as the directory of the module.
-/

namespace FileRoutes.Path

open FileSystem (saysNothing)

/-- Where a relative path stands, seen from the directory it starts from. -/
@[ext]
structure Stand where
  /-- How often it goes up. -/
  ups : Nat
  /-- The names that it then goes down. -/
  names : Location
deriving DecidableEq

namespace Stand

/-- One piece further. -/
def go (s : Stand) (piece : String) : Stand :=
  if saysNothing piece then s
  else if piece = ".." then
    if s.names = [] then ⟨s.ups + 1, []⟩ else ⟨s.ups, s.names.dropLast⟩
  else ⟨s.ups, s.names ++ [piece]⟩

/-- Where some pieces lead. -/
def wander (s : Stand) (pieces : List String) : Stand := pieces.foldl go s

/-- The way to where a path stands, in normal form. -/
def components (s : Stand) : List Component :=
  List.replicate s.ups .up ++ s.names.map .name

theorem wander_append (s : Stand) (as bs : List String) :
    s.wander (as ++ bs) = (s.wander as).wander bs := List.foldl_append

theorem go_of_saysNothing {piece : String} (h : saysNothing piece = true) (s : Stand) :
    s.go piece = s := if_pos h

theorem go_up (s : Stand) :
    s.go ".." = if s.names = [] then ⟨s.ups + 1, []⟩ else ⟨s.ups, s.names.dropLast⟩ := by
  rw [go, if_neg (by decide), if_pos rfl]

theorem go_of_goesDown {piece : String} (h : GoesDown piece) (s : Stand) :
    s.go piece = ⟨s.ups, s.names ++ [piece]⟩ := by
  rw [go, if_neg (by simp [h.1]), if_neg h.2]

/-! ### What pieces do -/

theorem wander_goesDown {ps : List String} (h : ∀ p ∈ ps, GoesDown p) (s : Stand) :
    s.wander ps = ⟨s.ups, s.names ++ ps⟩ := by
  induction ps generalizing s with
  | nil => simp [wander]
  | cons p ps ih =>
    rw [wander, List.foldl_cons, go_of_goesDown (h p List.mem_cons_self), ← wander,
      ih fun q hq => h q (List.mem_cons_of_mem _ hq)]
    simp

/-- Going up drops names as long as there are any. -/
theorem wander_replicate_up {k : Nat} {s : Stand} (h : k ≤ s.names.length) :
    s.wander (List.replicate k "..") = ⟨s.ups, s.names.take (s.names.length - k)⟩ := by
  induction k generalizing s with
  | zero => simp [wander]
  | succ k ih =>
    have hne : s.names ≠ [] := by rintro hn; simp [hn] at h
    rw [List.replicate_succ, wander, List.foldl_cons, go_up, if_neg hne, ← wander,
      ih (by simp only [List.length_dropLast]; omega)]
    simp only [Stand.mk.injEq, true_and, List.length_dropLast]
    rw [List.dropLast_eq_take, List.take_take]
    congr 1
    omega

/-- As long as there are names to drop, pieces lead as they do from a location. -/
theorem wander_eq_follow {k : Nat} {s : Stand} (h : k ≤ s.names.length) {ps : List String}
    (hdown : ∀ p ∈ ps, GoesDown p) :
    s.wander (List.replicate k ".." ++ ps) =
      ⟨s.ups, follow s.names (List.replicate k ".." ++ ps)⟩ := by
  rw [wander_append, wander_replicate_up h, wander_goesDown hdown, follow_append,
    follow_replicate_up, follow_goesDown hdown]

/-- Going up where there are no names is counted. -/
theorem wander_replicate_up_nil (k n : Nat) :
    wander ⟨n, []⟩ (List.replicate k "..") = ⟨n + k, []⟩ := by
  induction k generalizing n with
  | zero => rfl
  | succ k ih =>
    rw [List.replicate_succ, wander, List.foldl_cons, go_up, if_pos rfl, ← wander, ih]
    simp only [Stand.mk.injEq, and_true]
    omega

/-- No piece takes back what was climbed. -/
theorem ups_le_wander (s : Stand) (ps : List String) : s.ups ≤ (s.wander ps).ups := by
  induction ps generalizing s with
  | nil => exact Nat.le_refl _
  | cons p ps ih =>
    refine Nat.le_trans ?_ (ih (s.go p))
    unfold go
    split
    · exact Nat.le_refl _
    · split
      · split
        · exact Nat.le_succ _
        · exact Nat.le_refl _
      · exact Nat.le_refl _

/-- Where pieces lead, every name is one of them or was there before. -/
theorem mem_names_wander {s : Stand} {ps : List String} {name : String}
    (h : name ∈ (s.wander ps).names) : name ∈ s.names ∨ name ∈ ps ∧ GoesDown name := by
  induction ps generalizing s with
  | nil => exact .inl h
  | cons p ps ih =>
    have hlater : name ∈ (s.go p).names → name ∈ s.names ∨ name ∈ p :: ps ∧ GoesDown name := by
      intro hm
      obtain hp | rfl | hp := piece_cases p
      · rw [go_of_saysNothing hp] at hm
        exact .inl hm
      · rw [go_up] at hm
        split at hm
        · simp at hm
        · exact .inl (List.dropLast_subset _ hm)
      · rw [go_of_goesDown hp] at hm
        rcases List.mem_append.1 hm with hm | hm
        · exact .inl hm
        · rw [List.mem_singleton.1 hm]
          exact .inr ⟨List.mem_cons_self, hp⟩
    rcases ih h with hm | ⟨hm, hdown⟩
    · exact hlater hm
    · exact .inr ⟨List.mem_cons_of_mem _ hm, hdown⟩

/-! ### Normal forms -/

theorem count_up_components (s : Stand) : s.components.count .up = s.ups := by
  have hnames : (s.names.map Component.name).count .up = 0 := by simp [List.count_eq_zero]
  rw [components, List.count_append, List.count_replicate_self, hnames, Nat.add_zero]

/-- One piece on top of the normal form of a stand. -/
theorem resolveOnto_components (s : Stand) (piece : String) :
    ((componentOf? piece).toList.foldl resolveOnto s.components.reverse) =
      (s.go piece).components.reverse := by
  obtain hs | rfl | hdown := piece_cases piece
  · rw [go_of_saysNothing hs, componentOf?, if_pos (by simpa [saysNothing] using hs)]
    rfl
  · have hup : componentOf? ".." = some .up := by decide
    rw [go_up, hup]
    rcases List.eq_nil_or_concat s.names with hn | ⟨names, last, hn⟩
    · have hcs : s.components.reverse = List.replicate s.ups .up := by simp [components, hn]
      rw [if_pos hn, hcs]
      cases hups : s.ups with
      | zero => rfl
      | succ n =>
        rw [components, List.reverse_append, List.map_nil, List.reverse_nil, List.nil_append,
          List.reverse_replicate]
        rfl
    · simp [components, hn, resolveOnto]
  · have hname : componentOf? piece = some (.name piece) := by
      rw [componentOf?, if_neg (by simpa [saysNothing] using hdown.1), if_neg hdown.2]
    rw [go_of_goesDown hdown, hname]
    simp [components, resolveOnto]

theorem foldl_resolveOnto_components (s : Stand) (ps : List String) :
    (ps.filterMap componentOf?).foldl resolveOnto s.components.reverse =
      (s.wander ps).components.reverse := by
  induction ps generalizing s with
  | nil => rfl
  | cons p ps ih =>
    rw [wander, List.foldl_cons, ← wander, ← ih, ← resolveOnto_components, ← List.foldl_append]
    congr 1
    cases hp : componentOf? p <;> simp [hp]

/-- A stand is read back from the texts of its components. -/
theorem wander_texts {s : Stand} (h : ∀ name ∈ s.names, GoesDown name) :
    wander ⟨0, []⟩ (s.components.map Component.text) = s := by
  have htext : Component.text ∘ Component.name = id := rfl
  have hup : Component.text .up = ".." := rfl
  rw [components, List.map_append, List.map_replicate, List.map_map, htext, List.map_id, hup,
    wander_append, wander_replicate_up_nil, wander_goesDown h]
  exact Stand.ext (Nat.zero_add _) rfl

end Stand

/-- Where a relative path stands. -/
def stand (p : Path) : Stand := Stand.wander ⟨0, []⟩ p.segments

/-- How often the normal form of a path goes up. -/
def climb (p : Path) : Nat := (resolved p.components).count .up

/-- The normal form of a relative path is the way to where it stands. -/
theorem resolved_eq_stand {p : Path} (h : p.isAbsolute = false) :
    resolved p.components = p.stand.components := by
  have hfold := Stand.foldl_resolveOnto_components ⟨0, []⟩ p.segments
  have hkeep : ∀ (s : String) (cs : List Component),
      ((if s = "." then [Component.here] else []) ++ cs).foldl resolveOnto [] =
        cs.foldl resolveOnto [] := by
    intro s cs
    split <;> rfl
  rw [resolved, components, if_neg (by simp [h])]
  cases hp : p.segments with
  | nil => exact absurd hp (by simpa [segments] using Text.split_ne_nil p.text)
  | cons s rest =>
    rw [hp] at hfold
    simp only [hkeep]
    rw [stand, hp, ← List.reverse_reverse (Stand.components _), ← hfold]
    rfl

theorem climb_eq_ups {p : Path} (h : p.isAbsolute = false) : p.climb = p.stand.ups := by
  rw [climb, resolved_eq_stand h, Stand.count_up_components]

theorem goesDown_of_mem_stand {p : Path} {name : String} (h : name ∈ p.stand.names) :
    GoesDown name ∧ '/' ∉ name.toList := by
  obtain h | ⟨hm, hdown⟩ := Stand.mem_names_wander h
  · exact absurd h List.not_mem_nil
  · exact ⟨hdown, not_mem_of_mem_segments hm⟩

/-! ### Joining -/

theorem wander_split_slash (s : Stand) (t : String) :
    s.wander (Text.split '/' (t ++ "/")) = s.wander (Text.split '/' t) := by
  have h : t ++ "/" = t ++ "/" ++ "" := by simp
  have hs : Text.split '/' "" = [""] := by decide
  rw [h, Text.split_append, hs, Stand.wander_append]
  rfl

/-- A relative path leads on from where the path stands that it is joined to. -/
theorem stand_join {q : Path} (h : q.isAbsolute = false) (p : Path) :
    (p.join q).stand = p.stand.wander q.segments := by
  unfold join
  rw [if_neg (by simp [h])]
  split
  · next hp =>
    have hnothing : p.segments = [""] := by rw [segments, hp]; decide
    rw [stand, stand, hnothing]
    rfl
  · split
    · next hl =>
      obtain ⟨t, ht⟩ := exists_of_getLast_slash hl
      rw [stand, stand, segments, segments, ht, Text.split_append, Stand.wander_append,
        wander_split_slash]
      rfl
    · rw [stand, stand, segments, Text.split_append, Stand.wander_append]
      rfl

/-! ### The way from one stand to another -/

theorem wayBetween_cons (c : Component) (as bs : List Component) :
    wayBetween (c :: as) (c :: bs) = wayBetween as bs := by
  simp [wayBetween, commonLength]

theorem wayBetween_append_left (front as bs : List Component) :
    wayBetween (front ++ as) (front ++ bs) = wayBetween as bs := by
  induction front with
  | nil => rfl
  | cons c front ih => rw [List.cons_append, List.cons_append, wayBetween_cons, ih]

/-- What is further up has nothing in common with names. -/
theorem wayBetween_up (as bs : Location) (k : Nat) :
    wayBetween (as.map .name) (List.replicate (k + 1) .up ++ bs.map .name) =
      List.replicate as.length ".." ++ (List.replicate (k + 1) ".." ++ bs) := by
  have hcommon : commonLength (as.map .name) (List.replicate (k + 1) .up ++ bs.map .name) = 0 := by
    cases as <;> simp [commonLength, List.replicate_succ]
  have htext : Component.text ∘ Component.name = id := rfl
  have hup : Component.text .up = ".." := rfl
  simp [wayBetween, hcommon, htext, hup]

/-- From a stand that is not further up than another one, the way between their normal forms leads
to the other one. -/
theorem wander_wayBetween {s t : Stand} (h : s.ups ≤ t.ups) (hdown : ∀ p ∈ t.names, GoesDown p) :
    s.wander (wayBetween s.components t.components) = t := by
  obtain ⟨k, hk⟩ := Nat.exists_eq_add_of_le h
  rw [Stand.components, Stand.components, hk, ← List.replicate_append_replicate,
    List.append_assoc, wayBetween_append_left]
  cases k with
  | zero =>
    obtain ⟨n, -, hway⟩ := wayBetween_root s.names t.names
    have hfollow := follow_wayBetween s.names hdown
    rw [hway] at hfollow
    rw [wayBetween_cons] at hway
    rw [List.replicate_zero, List.nil_append, hway, Stand.wander_eq_follow (Nat.sub_le _ _)
      fun p hp => hdown p (List.mem_of_mem_drop hp), hfollow]
    exact Stand.ext hk.symm rfl
  | succ k =>
    rw [wayBetween_up, Stand.wander_append, Stand.wander_replicate_up (Nat.le_refl _),
      Nat.sub_self, List.take_zero, Stand.wander_append, Stand.wander_replicate_up_nil,
      Stand.wander_goesDown hdown]
    exact Stand.ext hk.symm rfl

theorem not_mem_wayBetween_of_stand {as bs : List Component}
    (h : ∀ c ∈ bs, '/' ∉ c.text.toList) : ∀ p ∈ wayBetween as bs, '/' ∉ p.toList := by
  intro p hp
  rcases List.mem_append.1 hp with hp | hp
  · rw [List.eq_of_mem_replicate hp]
    decide
  · obtain ⟨c, hc, rfl⟩ := List.mem_map.1 hp
    exact h c (List.mem_of_mem_drop hc)

/-- The text of a component of where a path stands is not empty and holds no slash. -/
theorem text_of_mem_components {p : Path} {c : Component} (h : c ∈ p.stand.components) :
    c.text ≠ "" ∧ '/' ∉ c.text.toList := by
  rcases List.mem_append.1 h with h | h
  · rw [List.eq_of_mem_replicate h]
    decide
  · obtain ⟨name, hname, rfl⟩ := List.mem_map.1 h
    obtain ⟨hdown, hslash⟩ := goesDown_of_mem_stand hname
    refine ⟨?_, hslash⟩
    rintro rfl
    exact absurd hdown.1 (by decide)

/-! ### Normal forms of paths -/

/-- The normal form of a relative path is written as its components are. -/
theorem normalize_of_relative {p : Path} (h : p.isAbsolute = false) :
    normalize p = ⟨Text.join "/" (p.stand.components.map Component.text)⟩ := by
  have hroot : ∀ cs, p.stand.components ≠ .root :: cs := by
    intro cs he
    have hm : Component.root ∈ p.stand.components := by simp [he]
    rcases List.mem_append.1 hm with hm | hm
    · exact absurd (List.eq_of_mem_replicate hm) (by simp)
    · simp at hm
  rw [normalize, resolved_eq_stand h]
  unfold ofComponents
  split
  · exact absurd ‹_› (hroot _)
  · rfl

/-- The pieces of the normal form of a relative path; the empty path has one piece, which says
nothing. -/
theorem segments_normalize {p : Path} (h : p.isAbsolute = false) :
    (normalize p).segments =
      if p.stand.components = [] then [""] else p.stand.components.map Component.text := by
  rw [normalize_of_relative h]
  split
  · next hnil => rw [hnil]; decide
  · next hne =>
    refine segments_join (by simpa using hne) fun t ht => ?_
    obtain ⟨c, hc, rfl⟩ := List.mem_map.1 ht
    exact (text_of_mem_components hc).2

/-- The normal form of a relative path stands where the path does. -/
theorem stand_normalize {p : Path} (h : p.isAbsolute = false) : (normalize p).stand = p.stand := by
  have hread := Stand.wander_texts (s := p.stand) fun name hname => (goesDown_of_mem_stand hname).1
  rw [stand, segments_normalize h]
  split
  · next hnil =>
    rw [hnil] at hread
    exact hread
  · exact hread

theorem isAbsolute_normalize (p : Path) : (normalize p).isAbsolute = p.isAbsolute := by
  cases h : p.isAbsolute with
  | true =>
    rw [normalize, resolved_eq_landing h []]
    simp [ofComponents, isAbsolute]
  | false =>
    have hsegments := segments_normalize h
    split at hsegments
    · exact Bool.eq_false_iff.2 fun ha => ((isAbsolute_iff_segments hsegments).1 ha).2 rfl
    · next hne =>
      obtain ⟨c, cs, hcs⟩ := List.exists_cons_of_ne_nil hne
      have htext := (text_of_mem_components (p := p) (c := c) (by simp [hcs])).1
      rw [hcs, List.map_cons] at hsegments
      exact Bool.eq_false_iff.2 fun ha => htext ((isAbsolute_iff_segments hsegments).1 ha).1

/-- Relative paths have one normal form where they stand at one place. -/
theorem normalize_eq_iff {p q : Path} (hp : p.isAbsolute = false) (hq : q.isAbsolute = false) :
    normalize p = normalize q ↔ p.stand = q.stand := by
  constructor
  · intro h
    rw [← stand_normalize hp, h, stand_normalize hq]
  · intro h
    rw [normalize_of_relative hp, normalize_of_relative hq, h]

/-! ### Specifiers -/

section relative

variable {source target : Path} (hs : source.isAbsolute = false) (ht : target.isAbsolute = false)
include hs ht

/-- The pieces of a specifier lead where the way between the normal forms leads. -/
theorem wander_specifier (s : Stand) :
    s.wander (segments ⟨specifier source target⟩) =
      s.wander (wayBetween source.stand.components target.stand.components) := by
  have hway : ∀ p ∈ wayBetween source.stand.components target.stand.components, '/' ∉ p.toList :=
    not_mem_wayBetween_of_stand fun c hc => (text_of_mem_components (p := target) hc).2
  have hmark : ∀ way : String,
      s.wander (Text.split '/' (markRelative way)) = s.wander (Text.split '/' way) := by
    intro way
    unfold markRelative
    split
    · rfl
    · have hdot : Text.split '/' "." = ["."] := by decide
      rw [show "./" ++ way = "." ++ "/" ++ way by rfl, Text.split_append, hdot,
        Stand.wander_append]
      rfl
  rw [segments, specifier, if_neg (by simp [ht]), resolved_eq_stand hs, resolved_eq_stand ht, hmark]
  by_cases hne : wayBetween source.stand.components target.stand.components = []
  · rw [hne]
    rfl
  · rw [Text.split_join hne hway]

/-- From a directory that is not further up than its target, the specifier leads to it. -/
theorem normalize_join_specifier (h : source.climb ≤ target.climb) :
    normalize (source.join ⟨specifier source target⟩) = normalize target := by
  have hway : IsWay (specifier source target) := by
    rw [specifier, if_neg (by simp [ht])]
    exact isWay_markRelative _
  rw [climb_eq_ups hs, climb_eq_ups ht] at h
  rw [normalize_eq_iff ((isAbsolute_join_of_relative hway.not_isAbsolute source).trans hs) ht,
    stand_join hway.not_isAbsolute, wander_specifier hs ht]
  exact wander_wayBetween h fun name hname => (goesDown_of_mem_stand hname).1

/-- A path that leads from a directory to a target shows that the directory is not further up. -/
theorem climb_le_of_join {way : Path} (h : normalize (source.join way) = normalize target) :
    source.climb ≤ target.climb := by
  have hway : way.isAbsolute = false := by
    refine Bool.eq_false_iff.2 fun ha => ?_
    have hjoin : source.join way = way := if_pos ha
    rw [hjoin] at h
    have := isAbsolute_normalize way
    rw [h, isAbsolute_normalize, ht, ha] at this
    contradiction
  have hjoin : (source.join way).isAbsolute = false :=
    (isAbsolute_join_of_relative hway source).trans hs
  rw [normalize_eq_iff hjoin ht, stand_join hway] at h
  rw [climb_eq_ups hs, climb_eq_ups ht, ← h]
  exact Stand.ups_le_wander _ _

end relative

/-- **Relative specifiers.** Between relative paths, the specifier leads from the directory to the
target exactly where the directory goes up no more often than the target, and nowhere else does any
other path lead there. -/
theorem specifier_leads_iff {source target : Path} (hs : source.isAbsolute = false)
    (ht : target.isAbsolute = false) :
    (normalize (source.join ⟨specifier source target⟩) = normalize target ↔
      source.climb ≤ target.climb) ∧
    ((∃ way : Path, normalize (source.join way) = normalize target) ↔
      source.climb ≤ target.climb) :=
  ⟨⟨climb_le_of_join hs ht, normalize_join_specifier hs ht⟩,
    ⟨fun ⟨_, hway⟩ => climb_le_of_join hs ht hway,
      fun h => ⟨⟨specifier source target⟩, normalize_join_specifier hs ht h⟩⟩⟩

/-- A directory one up and a target two up, both spelled with detours. -/
theorem specifier_leads_sample :
    let source : Path := ⟨"./a/../../lib/."⟩
    let target : Path := ⟨"../x/../..//db.ts"⟩
    source.isAbsolute = false ∧ target.isAbsolute = false ∧ source.climb = 1 ∧ target.climb = 2 ∧
      specifier source target = "../../db.ts" ∧
      normalize (source.join ⟨specifier source target⟩) = normalize target :=
  ⟨by decide, by decide, by decide, by decide, by decide +kernel,
    (specifier_leads_iff (by decide) (by decide)).1.2 (by decide)⟩

/-- From the directory above, the specifier of a file in the directory itself leads astray. -/
theorem specifier_astray :
    let source : Path := ⟨".."⟩
    let target : Path := ⟨"a"⟩
    source.isAbsolute = false ∧ target.isAbsolute = false ∧ specifier source target = "../a" ∧
      normalize (source.join ⟨specifier source target⟩) = ⟨"../../a"⟩ ∧
      normalize target = ⟨"a"⟩ := by
  decide +kernel

end FileRoutes.Path
