import FileRoutes.Identifier.Basic

/-!
# Names that are still free

A generated module imports many functions, and two files may ask for the same name. The
first one gets it; a later one gets the name with the least suffix `_1`, `_2`, … that is
still free. The names in use are threaded through the list, starting from those that the
module declares itself.

## What is proved

* `exists_free` — of `n + 1` different candidates one is outside a list of `n` names, so
  the bounded search for a suffix never runs out.
* `fresh_not_mem` — the name found is free.
* `freshAll_append` — how the names for a list follow from those for its parts.
-/

namespace FileRoutes.Identifier

/-- The candidate with suffix `k`. -/
def suffixed (name : String) (k : Nat) : String := name ++ "_" ++ toString k

/-- The candidates `name_1` to `name_n`. -/
def candidates (name : String) (n : Nat) : List String :=
  (List.range n).map fun k => suffixed name (k + 1)

/-- The name, or its first suffixed form outside `used`. -/
def fresh (used : List String) (name : String) : String :=
  if name ∈ used then
    ((candidates name (used.length + 1)).find? fun s => s ∉ used).getD name
  else name

/-- Free names for all of `names`, in order, none of them in `used`. -/
def freshAll (used : List String) : List String → List String
  | [] => []
  | name :: rest =>
    let s := fresh used name
    s :: freshAll (s :: used) rest

theorem suffixed_inj {name : String} {j k : Nat} (h : suffixed name j = suffixed name k) :
    j = k := by
  have h' : Nat.toDigits 10 j = Nat.toDigits 10 k := by
    have := congrArg String.toList h
    simp only [suffixed, String.toList_append, List.append_assoc, List.append_cancel_left_eq]
      at this
    simpa [Nat.toString_eq_ofList_toDigits] using this
  rw [← Nat.ofDigitChars_ten_toDigits (n := j), h', Nat.ofDigitChars_ten_toDigits]

/-- Different elements cannot all sit in a shorter list. -/
theorem exists_free {l used : List String} (nodup : l.Nodup) (h : used.length < l.length) :
    ∃ s ∈ l, s ∉ used := by
  induction l generalizing used with
  | nil => simp at h
  | cons a l ih =>
    by_cases ha : a ∈ used
    · have hlen : (used.erase a).length < l.length := by
        have := List.length_erase_of_mem ha
        have hpos := List.length_pos_of_mem ha
        simp only [List.length_cons] at h
        omega
      obtain ⟨s, hs, hns⟩ := ih (List.nodup_cons.1 nodup).2 hlen
      refine ⟨s, List.mem_cons_of_mem _ hs, fun hu => hns ?_⟩
      have : s ≠ a := fun e => (List.nodup_cons.1 nodup).1 (e ▸ hs)
      exact (List.mem_erase_of_ne this).2 hu
    · exact ⟨a, List.mem_cons_self, ha⟩

theorem nodup_candidates (name : String) (n : Nat) : (candidates name n).Nodup := by
  unfold candidates
  refine List.Pairwise.map _ ?_ List.nodup_range
  intro j k hne h
  exact hne (by have := suffixed_inj h; omega)

/-- The name found is outside the names in use. -/
theorem fresh_not_mem (used : List String) (name : String) : fresh used name ∉ used := by
  unfold fresh
  split
  · have hlt : used.length < (candidates name (used.length + 1)).length := by simp [candidates]
    obtain ⟨s, hs, hns⟩ := exists_free (nodup_candidates name (used.length + 1)) hlt
    cases hf : (candidates name (used.length + 1)).find? fun s => s ∉ used with
    | none => exact absurd (by simpa using hns) (by simpa using List.find?_eq_none.1 hf s hs)
    | some t => simpa using List.find?_some hf
  · assumption

theorem length_freshAll (used names : List String) :
    (freshAll used names).length = names.length := by
  induction names generalizing used with
  | nil => rfl
  | cons name rest ih => simp [freshAll, ih]

/-- The names found for a list begin with those found for its first part, and the rest is found
outside these too. -/
theorem freshAll_append (used first rest : List String) :
    freshAll used (first ++ rest) =
      freshAll used first ++ freshAll ((freshAll used first).reverse ++ used) rest := by
  induction first generalizing used with
  | nil => rfl
  | cons name first ih => simp [freshAll, ih]

end FileRoutes.Identifier
