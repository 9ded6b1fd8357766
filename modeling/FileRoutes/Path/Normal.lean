import FileRoutes.Path.Basic

/-!
# Lexical normal form of a path

A path is brought to normal form without looking at any file system: `.` is dropped and
`..` takes back the name before it. At the root there is nothing to take back, so `..`
says nothing there; a relative path keeps the `..` that lead out of it.

## The model

* `resolveOnto` — one component on top of the components kept so far, innermost first.
* `resolved` — the components of the normal form, outermost first.
* `Resolved` — what a normal form looks like, said without the procedure: no `.`, the root
  only in front, and `..` only as a leading run of a relative path.

## What is proved

* `Resolved.concat_cases` — what a normal form may end with.
* `Resolved.step` — one more component that is not the root keeps the normal form.
-/

namespace FileRoutes.Path

/-- The components kept so far, innermost first, after one more component. -/
def resolveOnto (kept : List Component) : Component → List Component
  | .root => [.root]
  | .here => kept
  | .name s => .name s :: kept
  | .up =>
    match kept with
    | .name _ :: rest => rest
    | .root :: rest => .root :: rest
    | kept => .up :: kept

/-- The components of the normal form, outermost first. -/
def resolved (cs : List Component) : List Component :=
  (cs.foldl resolveOnto []).reverse

/-- The lexical normal form of a path. -/
def normalize (p : Path) : Path := ofComponents (resolved p.components)

/-- Only names: what follows the root or the leading run of `..`. -/
def AllNames (cs : List Component) : Prop := ∀ c ∈ cs, ∃ s, c = .name s

/-- A list of components, outermost first, in normal form: the root and names, or a run of
`..` and names. -/
inductive Resolved : List Component → Prop
  /-- An absolute path: the root, then names. -/
  | absolute {cs : List Component} (names : AllNames cs) : Resolved (.root :: cs)
  /-- A relative path: `n` times up, then names. -/
  | relative (n : Nat) {cs : List Component} (names : AllNames cs) :
      Resolved (List.replicate n .up ++ cs)

theorem AllNames.append {cs : List Component} (h : AllNames cs) (s : String) :
    AllNames (cs ++ [.name s]) := by
  intro c hc
  rcases List.mem_append.1 hc with hc | hc
  · exact h c hc
  · exact ⟨s, List.mem_singleton.1 hc⟩

theorem AllNames.dropLast {cs : List Component} (h : AllNames cs) : AllNames cs.dropLast :=
  fun c hc => h c (List.dropLast_subset cs hc)

/-- What a normal form may end with: the root alone, the last `..` of a run of them, or a name
behind a normal form. -/
theorem Resolved.concat_cases {init : List Component} {l : Component}
    (h : Resolved (init ++ [l])) :
    (init = [] ∧ l = .root) ∨ (∃ n, init = List.replicate n .up ∧ l = .up) ∨
      ∃ s, l = .name s ∧ Resolved init := by
  have hends : ∀ (front : List Component) {names : List Component}, AllNames names →
      init ++ [l] = front ++ names →
      names = [] ∨ ∃ kept s, AllNames kept ∧ init = front ++ kept ∧ l = .name s := by
    intro front names hnames he
    rcases List.eq_nil_or_concat names with rfl | ⟨kept, last, rfl⟩
    · exact .inl rfl
    · obtain ⟨s, rfl⟩ := hnames last (by simp)
      rw [List.concat_eq_append, ← List.append_assoc] at he
      obtain ⟨hinit, hl⟩ := List.append_inj' he rfl
      have hkept := hnames.dropLast
      rw [List.concat_eq_append, List.dropLast_concat] at hkept
      exact .inr ⟨kept, s, hkept, hinit, by simpa using hl⟩
  generalize hcs : init ++ [l] = cs at h
  cases h with
  | @absolute names hnames =>
    obtain rfl | ⟨kept, s, hkept, rfl, rfl⟩ := hends [.root] hnames hcs
    · obtain ⟨hinit, hl⟩ := List.append_inj' (hcs.trans (List.nil_append _).symm) rfl
      exact .inl ⟨hinit, by simpa using hl⟩
    · exact .inr (.inr ⟨s, rfl, .absolute hkept⟩)
  | @relative n names hnames =>
    obtain rfl | ⟨kept, s, hkept, rfl, rfl⟩ := hends _ hnames hcs
    · cases n with
      | zero => simp at hcs
      | succ n =>
        rw [List.append_nil, List.replicate_succ'] at hcs
        obtain ⟨hinit, hl⟩ := List.append_inj' hcs rfl
        exact .inr (.inl ⟨n, hinit, by simpa using hl⟩)
    · exact .inr (.inr ⟨s, rfl, .relative n hkept⟩)

/-- One more component that is not the root keeps the normal form. -/
theorem Resolved.step {kept : List Component} (h : Resolved kept.reverse) {c : Component}
    (hc : c ≠ .root) : Resolved (resolveOnto kept c).reverse := by
  cases c with
  | root => exact absurd rfl hc
  | here => exact h
  | name s =>
    simp only [resolveOnto, List.reverse_cons]
    generalize kept.reverse = cs at h
    cases h with
    | absolute names => exact .absolute (names.append s)
    | relative n names => rw [List.append_assoc]; exact .relative n (names.append s)
  | up =>
    have hnone : AllNames [] := by simp [AllNames]
    cases kept with
    | nil => exact @Resolved.relative 1 [] hnone
    | cons last rest =>
      rw [List.reverse_cons] at h
      obtain ⟨hrest, rfl⟩ | ⟨n, hrest, rfl⟩ | ⟨s, rfl, hrest⟩ := h.concat_cases
      · obtain rfl := List.reverse_eq_nil_iff.1 hrest
        exact .absolute hnone
      · have hup : (resolveOnto (.up :: rest) .up).reverse =
            List.replicate (n + 2) Component.up ++ [] := by
          simp [resolveOnto, hrest, List.replicate_succ']
        rw [hup]
        exact .relative (n + 2) hnone
      · exact hrest

end FileRoutes.Path
