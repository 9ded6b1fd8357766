import FileRoutes.Proofs.Resolving
import FileRoutes.Proofs.Spelling

/-!
# Normal forms of paths

A path is built anew, one component after the other, and `..` takes back the name that was built
last. What comes out has no detour left: it goes up at its beginning only, an absolute path never,
and from every directory it leads where the path itself leads. No other path is like that. So it
does not matter whether a path is brought to normal form before or after another one is joined to
it.

## The model

* `advance` — a path that is being built, after one more component.
* `IsNormal` — a path without a detour, spelled as plainly as its components can be.

## What is proved

* `components_normalize` — the components of the normal form are those that are resolved.
* `landing_normalize` — the normal form leads where the path leads.
* `isNormal_iff`, `IsNormal.eq_of_landing` — what is in normal form, and that it is told apart by
  where it leads.
* `advance_ofComponents`, `foldl_advance` — one component after the other, the path that is built is
  spelled by the components that are kept.

The main statement is `normalize_projection`.
-/

namespace FileRoutes.Path

/-! ### Components of the normal form -/

/-- The names among some components can be read back. -/
def NamesRead (cs : List Component) : Prop := ∀ s, .name s ∈ cs → (Component.name s).IsPiece

theorem namesRead_components (p : Path) : NamesRead p.components :=
  fun _ hs => isPiece_of_mem_components hs (by simp) (by simp)

theorem spellable_resolved (p : Path) : Spellable (resolved p.components) :=
  (resolved_resolved _).spellable fun s hs => namesRead_components p s (mem_of_mem_resolved hs)

/-- The components of the normal form are those that are resolved. -/
theorem components_normalize (p : Path) : (normalize p).components = resolved p.components :=
  (spellable_resolved p).components_ofComponents

/-- The normal form leads where the path leads. -/
theorem landing_normalize (here : Location) (p : Path) :
    landing here (normalize p) = landing here p := by
  rw [landing_eq_foldl, components_normalize, foldl_move_resolved, ← landing_eq_foldl]

/-! ### Paths in normal form -/

/-- A path in normal form. -/
structure IsNormal (p : Path) : Prop where
  /-- Nothing stays where it is. -/
  noHere : .here ∉ p.components
  /-- An absolute path does not go up. -/
  noUp : p.isAbsolute = true → .up ∉ p.components
  /-- A relative path goes up at its beginning only. -/
  upFirst : p.isAbsolute = false →
    ∃ n rest, p.components = List.replicate n .up ++ rest ∧ .up ∉ rest
  /-- The text says nothing but the components. -/
  plain : ofComponents p.components = p

theorem IsNormal.resolved {p : Path} (h : p.IsNormal) : Resolved p.components := by
  obtain ⟨tail, hroot, htail⟩ := exists_components p
  have hhere := h.noHere
  cases ha : p.isAbsolute with
  | true =>
    have hup := h.noUp ha
    rw [ha, if_pos rfl] at htail
    rw [htail, List.mem_cons, not_or] at hup hhere
    rw [htail]
    exact .absolute (allNames_iff.2 ⟨hroot, hhere.2, hup.2⟩)
  | false =>
    obtain ⟨n, rest, hrun, hup⟩ := h.upFirst ha
    rw [ha, if_neg (by simp)] at htail
    rw [← htail, hrun, List.mem_append, not_or] at hroot
    rw [hrun, List.mem_append, not_or] at hhere
    rw [hrun]
    exact .relative n (allNames_iff.2 ⟨hroot.2, hhere.2, hup⟩)

/-- A path is in normal form where its components are and it is spelled as they are. -/
theorem isNormal_iff {p : Path} :
    p.IsNormal ↔ Resolved p.components ∧ ofComponents p.components = p := by
  refine ⟨fun h => ⟨h.resolved, h.plain⟩, fun ⟨hresolved, hplain⟩ => ?_⟩
  -- The root tells whether the path is absolute, and so which of the two normal forms it has.
  obtain ⟨tail, hroot, htail⟩ := exists_components p
  generalize hcs : p.components = cs at hresolved htail
  cases hresolved with
  | absolute hall =>
    obtain ⟨-, hhere, hup⟩ := allNames_iff.1 hall
    refine ⟨by simp [hcs, hhere], fun _ => by simp [hcs, hup], fun ha => ?_, hplain⟩
    rw [ha, if_neg (by simp)] at htail
    exact absurd (htail ▸ List.mem_cons_self) hroot
  | @relative n names hall =>
    obtain ⟨hroot', hhere, hup⟩ := allNames_iff.1 hall
    refine ⟨by simp [hcs, hhere], fun ha => ?_, fun _ => ⟨n, _, hcs, hup⟩, hplain⟩
    rw [ha, if_pos rfl] at htail
    have hmem : .root ∈ List.replicate n .up ++ names := htail ▸ List.mem_cons_self
    simp [hroot'] at hmem

theorem isNormal_normalize (p : Path) : (normalize p).IsNormal := by
  rw [isNormal_iff, components_normalize]
  exact ⟨resolved_resolved _, rfl⟩

/-- A path in normal form is left as it is. -/
theorem IsNormal.normalize_eq {p : Path} (h : p.IsNormal) : normalize p = p := by
  obtain ⟨hresolved, hplain⟩ := isNormal_iff.1 h
  rw [normalize, hresolved.resolved_eq, hplain]

/-- Paths in normal form that lead to the same places are the same. -/
theorem IsNormal.eq_of_landing {p q : Path} (hp : p.IsNormal) (hq : q.IsNormal)
    (h : ∀ here, landing here p = landing here q) : p = q := by
  obtain ⟨hresolved, hplain⟩ := isNormal_iff.1 hp
  obtain ⟨hresolved', hplain'⟩ := isNormal_iff.1 hq
  simp only [landing_eq_foldl] at h
  rw [← hplain, ← hplain', hresolved.eq_of_foldl_move hresolved' h]

/-- Paths have one normal form where they lead to the same places. -/
theorem normalize_eq_of_forall_landing {p q : Path}
    (h : ∀ here, landing here p = landing here q) : normalize p = normalize q := by
  apply (isNormal_normalize p).eq_of_landing (isNormal_normalize q)
  intro here
  rw [landing_normalize, landing_normalize, h]

/-! ### Joining -/

/-- A path may be brought to normal form before another one is joined to it. -/
theorem normalize_join (p q : Path) : normalize (p.join q) = normalize ((normalize p).join q) := by
  cases hq : q.isAbsolute with
  | true =>
    have hjoin : ∀ r : Path, r.join q = q := fun r => if_pos hq
    rw [hjoin, hjoin]
  | false =>
    apply normalize_eq_of_forall_landing
    intro here
    rw [landing_join hq, landing_join hq, landing_normalize]

/-! ### Building a path -/

/-- A path that is being built, after one more component: `..` takes back the name at its end, and
where there is none it is added unless the path starts at the root. -/
def advance (built : Path) : Component → Path
  | .root => built.child "/"
  | .here => built
  | .name s => built.child s
  | .up =>
    if built.fileName?.isSome then built.directory
    else if built.isAbsolute then built
    else built.child ".."

/-- The path that is built is spelled by the components that are kept: what is put on top of them is
joined to it, and what is taken back is taken off its end. -/
theorem advance_ofComponents {kept : List Component} (h : Resolved kept.reverse)
    (hkept : NamesRead kept) {c : Component} (hc : NamesRead [c]) :
    advance (ofComponents kept.reverse) c = ofComponents (resolveOnto kept c).reverse := by
  have hspellable := h.spellable fun s hs => hkept s (List.mem_reverse.1 hs)
  cases c with
  | root =>
    have hroot : isAbsolute ⟨"/"⟩ = true := by decide
    rw [advance, child, join, if_pos hroot]
    rfl
  | here => rfl
  | name s =>
    rw [resolveOnto, List.reverse_cons, ← hspellable.child_ofComponents (hc s (by simp))]
    rfl
  | up =>
    have hadded : (ofComponents kept.reverse).child ".." = ofComponents (kept.reverse ++ [.up]) :=
      hspellable.child_ofComponents isPiece_up
    cases kept with
    | nil => exact hadded
    | cons last rest =>
      rw [List.reverse_cons] at h hspellable hadded ⊢
      have hname := hspellable.fileName_ofComponents
      obtain ⟨hrest, rfl⟩ | ⟨n, hrest, rfl⟩ | ⟨s, rfl, hrest⟩ := h.concat_cases
      · obtain rfl := List.reverse_eq_nil_iff.1 hrest
        decide
      · have hups : ∀ d ∈ rest.reverse ++ [.up], d.IsPiece := by
          intro d hd
          rw [hrest, ← List.replicate_succ'] at hd
          rw [List.eq_of_mem_replicate hd]
          exact isPiece_up
        rw [advance, hname, isAbsolute_of_pieces hups, if_neg (by decide), if_neg (by decide),
          hadded]
        simp [resolveOnto]
      · have hfront : Spellable rest.reverse :=
          hrest.spellable fun t ht => hkept t (List.mem_cons_of_mem _ (List.mem_reverse.1 ht))
        rw [advance, hname, if_pos (by rfl),
          hfront.directory_ofComponents (hkept s List.mem_cons_self)]
        rfl

/-- One component after the other, the path that is built is spelled by the components that are
kept. -/
theorem foldl_advance {kept cs : List Component} (h : Resolved kept.reverse)
    (hkept : NamesRead kept) (hcs : NamesRead cs) :
    cs.foldl advance (ofComponents kept.reverse) =
      ofComponents (cs.foldl resolveOnto kept).reverse := by
  induction cs generalizing kept with
  | nil => rfl
  | cons c cs ih =>
    have hc : NamesRead [c] := by
      intro s hs
      exact hcs s (List.mem_singleton.1 hs ▸ List.mem_cons_self)
    have hnext : NamesRead (resolveOnto kept c) := by
      intro s hs
      rcases mem_resolveOnto hs with hs | hs
      · exact hkept s hs
      · exact hc s (hs ▸ List.mem_singleton_self _)
    have hresolved : Resolved (resolveOnto kept c).reverse := h.foldl [c]
    rw [List.foldl_cons, List.foldl_cons, advance_ofComponents h hkept hc,
      ih hresolved hnext fun s hs => hcs s (List.mem_cons_of_mem _ hs)]

/-- The normal form is the path that is built from the components. -/
theorem normalize_eq_foldl (p : Path) : normalize p = p.components.foldl advance ⟨""⟩ := by
  have hnone : NamesRead [] := fun s hs => absurd hs List.not_mem_nil
  have hstart : Resolved (List.reverse []) := resolved_nil
  exact (foldl_advance hstart hnone (namesRead_components p)).symm

/-! ### Normal forms -/

/-- **Normal forms of paths.** A path is brought to normal form by building it anew from its
components. What comes out is in normal form; what is in normal form already is left as it is, so
doing it again changes nothing, and absolute paths stay absolute. It is the one path in normal form
that leads where the path leads, wherever that starts. And a path may be brought to normal form
before another one is joined to it. -/
theorem normalize_projection :
    (∀ p : Path, normalize p = p.components.foldl advance ⟨""⟩) ∧
    (∀ p : Path, (normalize p).IsNormal ∧ (normalize p = p ↔ p.IsNormal) ∧
      normalize (normalize p) = normalize p ∧ (normalize p).isAbsolute = p.isAbsolute) ∧
    (∀ p q : Path, q = normalize p ↔
      q.IsNormal ∧ ∀ here, landing here q = landing here p) ∧
    ∀ a b : Path, normalize (a.join b) = normalize ((normalize a).join b) := by
  refine ⟨normalize_eq_foldl, fun p => ?_, fun p q => ?_, normalize_join⟩
  · have hnormal := isNormal_normalize p
    refine ⟨hnormal, ⟨fun h => ?_, IsNormal.normalize_eq⟩, hnormal.normalize_eq,
      isAbsolute_normalize p⟩
    rwa [h] at hnormal
  · constructor
    · rintro rfl
      exact ⟨isNormal_normalize p, fun here => landing_normalize here p⟩
    · rintro ⟨hq, hto⟩
      apply hq.eq_of_landing (isNormal_normalize p)
      intro here
      rw [hto, landing_normalize]

/-- `..` that climbs past names, past the start of a relative path and past the root. -/
example : normalize ⟨"./a/../../b//c/."⟩ = ⟨"../b/c"⟩ ∧ normalize ⟨"/../a/./b/.."⟩ = ⟨"/a"⟩ ∧
    normalize ⟨"a/.."⟩ = ⟨""⟩ ∧ normalize (join ⟨"a"⟩ ⟨"../../.."⟩) = ⟨"../.."⟩ := by
  decide

end FileRoutes.Path
