import FileRoutes.Proofs.Beginnings
import FileRoutes.Proofs.Climbing
import Mathlib.Data.List.Induction

/-!
# Resolving components

Components are resolved one after the other, and `..` takes back the name that was kept last. What
is kept is in normal form all the time, and from every directory it leads where the components lead
that it was made from. Components in normal form are told apart by where they lead, so nothing else
in normal form leads there.

## The model

* `move` — where one component leads.

## What is proved

* `Resolved.foldl`, `resolved_resolved` — what is kept is in normal form.
* `Resolved.resolved_eq` — what is in normal form is kept as it is.
* `foldl_move_resolveOnto`, `foldl_move_resolved` — taking back a name leads where going up leads.
* `Resolved.eq_of_foldl_move` — components in normal form that lead to the same places are the same.
* `landing_eq_foldl` — a path leads where its components lead.
-/

namespace FileRoutes.Path

open FileSystem (saysNothing startOf)

/-! ### Names only -/

theorem allNames_nil : AllNames [] := by simp [AllNames]

theorem AllNames.exists_map {cs : List Component} (h : AllNames cs) :
    ∃ names : List String, cs = names.map .name := by
  induction cs with
  | nil => exact ⟨[], rfl⟩
  | cons c cs ih =>
    obtain ⟨s, rfl⟩ := h c List.mem_cons_self
    obtain ⟨names, hnames⟩ := ih fun d hd => h d (List.mem_cons_of_mem _ hd)
    exact ⟨s :: names, by rw [hnames, List.map_cons]⟩

theorem allNames_iff {cs : List Component} :
    AllNames cs ↔ .root ∉ cs ∧ .here ∉ cs ∧ .up ∉ cs := by
  constructor
  · intro h
    have hno : ∀ c : Component, c.name? = none → c ∉ cs := by
      intro c hc hm
      obtain ⟨s, rfl⟩ := h c hm
      cases hc
    exact ⟨hno _ rfl, hno _ rfl, hno _ rfl⟩
  · rintro ⟨hroot, hhere, hup⟩ c hc
    cases c with
    | root => exact absurd hc hroot
    | here => exact absurd hc hhere
    | up => exact absurd hc hup
    | name s => exact ⟨s, rfl⟩

/-! ### What is kept -/

theorem resolved_nil : Resolved [] := .relative 0 allNames_nil

/-- Going up takes back a name, stays at the root, and is kept otherwise. -/
theorem resolveOnto_up_cases (kept : List Component) :
    (∃ s rest, kept = .name s :: rest ∧ resolveOnto kept .up = rest) ∨
      (∃ rest, kept = .root :: rest ∧ resolveOnto kept .up = kept) ∨
      resolveOnto kept .up = .up :: kept := by
  cases kept with
  | nil => exact .inr (.inr rfl)
  | cons last rest =>
    cases last with
    | root => exact .inr (.inl ⟨rest, rfl, rfl⟩)
    | here => exact .inr (.inr rfl)
    | up => exact .inr (.inr rfl)
    | name s => exact .inl ⟨s, rest, rfl, rfl⟩

/-- More components keep the normal form: the root starts another one, and the others go on. -/
theorem Resolved.foldl {kept : List Component} (h : Resolved kept.reverse) (cs : List Component) :
    Resolved (cs.foldl resolveOnto kept).reverse := by
  induction cs generalizing kept with
  | nil => exact h
  | cons c cs ih =>
    apply ih
    by_cases hc : c = .root
    · rw [hc]
      exact .absolute allNames_nil
    · exact h.step hc

theorem resolved_resolved (cs : List Component) : Resolved (resolved cs) :=
  @Resolved.foldl [] resolved_nil cs

/-- What stands before the last component of a normal form is a normal form, and the last one is put
on top of it. -/
theorem Resolved.of_concat {init : List Component} {l : Component} (h : Resolved (init ++ [l])) :
    Resolved init ∧ resolveOnto init.reverse l = l :: init.reverse := by
  obtain ⟨rfl, rfl⟩ | ⟨n, rfl, rfl⟩ | ⟨s, rfl, hinit⟩ := h.concat_cases
  · exact ⟨resolved_nil, rfl⟩
  · refine ⟨by simpa using Resolved.relative n allNames_nil, ?_⟩
    rw [List.reverse_replicate]
    cases n <;> rfl
  · exact ⟨hinit, rfl⟩

/-- What is in normal form is kept as it is. -/
theorem Resolved.resolved_eq {cs : List Component} (h : Resolved cs) : resolved cs = cs := by
  induction cs using List.reverseRecOn with
  | nil => rfl
  | append_singleton init l ih =>
    obtain ⟨hinit, hl⟩ := h.of_concat
    have hkept : init.foldl resolveOnto [] = init.reverse := by
      rw [← List.reverse_inj, List.reverse_reverse]
      exact ih hinit
    rw [resolved, List.foldl_append, hkept, List.foldl_cons, hl, List.foldl_nil, List.reverse_cons,
      List.reverse_reverse]

theorem mem_resolveOnto {kept : List Component} {c d : Component} (h : d ∈ resolveOnto kept c) :
    d ∈ kept ∨ d = c := by
  cases c with
  | root => exact .inr (List.mem_singleton.1 h)
  | here => exact .inl h
  | name s => exact (List.mem_cons.1 h).symm
  | up =>
    obtain ⟨s, rest, rfl, hup⟩ | ⟨rest, rfl, hup⟩ | hup := resolveOnto_up_cases kept
    · exact .inl (List.mem_cons_of_mem _ (hup ▸ h))
    · exact .inl (hup ▸ h)
    · exact (List.mem_cons.1 (hup ▸ h)).symm

/-- No component is invented. -/
theorem mem_of_mem_foldl {kept cs : List Component} {d : Component}
    (h : d ∈ cs.foldl resolveOnto kept) : d ∈ kept ∨ d ∈ cs := by
  induction cs generalizing kept with
  | nil => exact .inl h
  | cons c cs ih =>
    rcases ih h with h | h
    · exact (mem_resolveOnto h).imp_right fun hd => by simp [hd]
    · exact .inr (List.mem_cons_of_mem _ h)

theorem mem_of_mem_resolved {cs : List Component} {d : Component} (h : d ∈ resolved cs) : d ∈ cs :=
  (mem_of_mem_foldl (List.mem_reverse.1 h)).resolve_left List.not_mem_nil

/-! ### Where components lead -/

/-- Where one component leads. -/
def move (here : Location) : Component → Location
  | .root => []
  | .here => here
  | .up => here.dropLast
  | .name s => here ++ [s]

/-- What is kept after one more component leads where that leads: to take a name back is to go up
from it. -/
theorem foldl_move_resolveOnto (here : Location) (kept : List Component) (c : Component) :
    (resolveOnto kept c).reverse.foldl move here = move (kept.reverse.foldl move here) c := by
  cases c with
  | root => rfl
  | here => rfl
  | name s => simp [resolveOnto]
  | up =>
    obtain ⟨s, rest, rfl, hup⟩ | ⟨rest, rfl, hup⟩ | hup := resolveOnto_up_cases kept
    · rw [hup]
      simp [move]
    · rw [hup]
      simp [move]
    · rw [hup, List.reverse_cons, List.foldl_append]
      rfl

/-- Resolved components lead where the components lead. -/
theorem foldl_move_resolved (here : Location) (cs : List Component) :
    (resolved cs).foldl move here = cs.foldl move here := by
  have hkept : ∀ kept, (cs.foldl resolveOnto kept).reverse.foldl move here =
      cs.foldl move (kept.reverse.foldl move here) := by
    induction cs with
    | nil => exact fun kept => rfl
    | cons c cs ih =>
      intro kept
      rw [List.foldl_cons, ih, foldl_move_resolveOnto, List.foldl_cons]
  exact hkept []

theorem foldl_move_names (names : List String) (here : Location) :
    (names.map Component.name).foldl move here = here ++ names := by
  induction names generalizing here with
  | nil => simp
  | cons s names ih => simp [move, ih]

theorem foldl_move_up (n : Nat) (here : Location) :
    (List.replicate n Component.up).foldl move here = here.take (here.length - n) := by
  induction n generalizing here with
  | zero => simp
  | succ n ih =>
    rw [List.replicate_succ, List.foldl_cons, ih, move, List.dropLast_eq_take, List.take_take,
      List.length_take]
    congr 1
    omega

/-- Where components in normal form lead: down from the root, or up from a directory and then
down. -/
theorem Resolved.exists_names {cs : List Component} (h : Resolved cs) :
    ∃ names : List String,
      (cs = .root :: names.map .name ∧ ∀ here, cs.foldl move here = names) ∨
      ∃ n, cs = List.replicate n .up ++ names.map .name ∧
        ∀ here, cs.foldl move here = here.take (here.length - n) ++ names := by
  cases h with
  | absolute hall =>
    obtain ⟨names, rfl⟩ := hall.exists_map
    exact ⟨names, .inl ⟨rfl, fun here => foldl_move_names names []⟩⟩
  | relative n hall =>
    obtain ⟨names, rfl⟩ := hall.exists_map
    refine ⟨names, .inr ⟨n, rfl, fun here => ?_⟩⟩
    rw [List.foldl_append, foldl_move_up, foldl_move_names]

/-- Components in normal form that lead to the same places are the same. -/
theorem Resolved.eq_of_foldl_move {as bs : List Component} (ha : Resolved as) (hb : Resolved bs)
    (h : ∀ here, as.foldl move here = bs.foldl move here) : as = bs := by
  obtain ⟨names, ha⟩ := ha.exists_names
  obtain ⟨names', hb⟩ := hb.exists_names
  -- From the root only the names count.
  have hroot : as.foldl move [] = names ∧ bs.foldl move [] = names' := by
    constructor
    · rcases ha with ⟨-, hto⟩ | ⟨n, -, hto⟩ <;> simp [hto]
    · rcases hb with ⟨-, hto⟩ | ⟨n, -, hto⟩ <;> simp [hto]
  obtain rfl : names = names' := by rw [← hroot.1, ← hroot.2, h []]
  -- From a place that is deep enough it shows how often they go up.
  have hdeep : ∀ k, (as.foldl move (List.replicate k "")).length =
      (bs.foldl move (List.replicate k "")).length := fun k => by rw [h]
  obtain ⟨rfl, hto⟩ | ⟨n, rfl, hto⟩ := ha <;> obtain ⟨rfl, hto'⟩ | ⟨n', rfl, hto'⟩ := hb <;>
    simp only [hto, hto', List.length_append, List.length_take, List.length_replicate] at hdeep
  · rfl
  · have := hdeep (n' + 1)
    omega
  · have := hdeep (n + 1)
    omega
  · have := hdeep (n + n')
    obtain rfl : n = n' := by omega
    rfl

/-! ### Where a path leads -/

theorem follow_eq_foldl (here : Location) (ps : List String) :
    follow here ps = (ps.filterMap componentOf?).foldl move here := by
  induction ps generalizing here with
  | nil => rfl
  | cons p ps ih =>
    obtain hp | rfl | hp := piece_cases p
    · have hnone : componentOf? p = none := if_pos (by simpa [saysNothing] using hp)
      rw [follow_cons_nothing _ _ hp, ih, List.filterMap_cons_none hnone]
    · have hup : componentOf? ".." = some .up := by decide
      rw [follow_cons_up, ih, List.filterMap_cons_some hup]
      rfl
    · rw [follow_cons_down _ _ hp, ih, List.filterMap_cons_some (componentOf_of_goesDown hp)]
      rfl

/-- A path leads where its components lead. -/
theorem landing_eq_foldl (here : Location) (p : Path) :
    landing here p = p.components.foldl move here := by
  have hheading : startOf p.text here = p.heading.foldl move here := by
    unfold heading
    cases ha : p.isAbsolute with
    | true => exact startOf_of_isAbsolute ha here
    | false =>
      rw [startOf_of_not_isAbsolute ha, if_neg (by simp)]
      split <;> rfl
  rw [landing, hheading, follow_eq_foldl, components_eq, List.foldl_append]

end FileRoutes.Path
