import Mathlib.Data.Finset.Image

/-!
# Handing out what is free

Identifiers and the places of routers are handed out in the same way. Whoever asks has candidates
in some order and gets the first one that nobody has got so far, which is taken from then on.
Nothing says in advance how many candidates are tried, so that a search has ended is part of what
is said about what was handed out.

## The model

* `Search` — trying candidates one after the other, one rule for each step.
* `HandsOut` — handing out to everyone in a list, with what is taken before and afterwards.
* `FirstFree` — the first candidate that is free, said without a search.

## What is proved

* `search_iff_firstFree` — a search ends at the first free candidate and nowhere else.
* `HandsOut.nodup`, `HandsOut.not_mem`, `HandsOut.final_eq` — what is handed out is free and
  differs from each other, and nothing else is taken in the end.
* `HandsOut.firstFree` — everyone gets the first candidate that is free by then.
* `HandsOut.unique` — there is only one way to hand out.
-/

namespace FileRoutes

variable {α β γ : Type}

/-! ### Searching -/

/-- Trying candidates one after the other, from the one with a number on, until one is not taken. -/
inductive Search (candidate : Nat → β) (taken : Finset β) : Nat → β → Prop
  /-- The candidate is free. -/
  | found {k : Nat} (free : candidate k ∉ taken) : Search candidate taken k (candidate k)
  /-- The candidate is taken, and the next one is tried. -/
  | next {k : Nat} {b : β} (held : candidate k ∈ taken) (rest : Search candidate taken (k + 1) b) :
      Search candidate taken k b

/-- The first candidate that is not taken. -/
def FirstFree (candidate : Nat → β) (taken : Finset β) (b : β) : Prop :=
  ∃ k, b = candidate k ∧ candidate k ∉ taken ∧ ∀ j < k, candidate j ∈ taken

section search

variable {candidate : Nat → β} {taken : Finset β} {b b' : β} {k n : Nat}

/-- A search passes the candidates that are taken. -/
theorem Search.of_held (hheld : ∀ j, k ≤ j → j < n → candidate j ∈ taken) (hk : k ≤ n)
    (h : Search candidate taken n b) : Search candidate taken k b := by
  induction n with
  | zero =>
    obtain rfl : k = 0 := by omega
    exact h
  | succ n ih =>
    rcases Nat.eq_or_lt_of_le hk with rfl | hlt
    · exact h
    · apply ih
      · intro j hkj hjn
        exact hheld j hkj (by omega)
      · omega
      · exact .next (hheld n (by omega) (by omega)) h

/-- Where a search ends. -/
theorem Search.exists_free (h : Search candidate taken k b) :
    ∃ n, k ≤ n ∧ b = candidate n ∧ candidate n ∉ taken ∧
      ∀ j, k ≤ j → j < n → candidate j ∈ taken := by
  induction h with
  | @found k free =>
    refine ⟨k, le_rfl, rfl, free, ?_⟩
    intro j hkj hjk
    omega
  | @next k b held _ ih =>
    obtain ⟨n, hkn, hb, hfree, hheld⟩ := ih
    refine ⟨n, by omega, hb, hfree, ?_⟩
    intro j hkj hjn
    rcases Nat.eq_or_lt_of_le hkj with rfl | hlt
    · exact held
    · exact hheld j hlt hjn

/-- A search through all candidates ends at the first free one. -/
theorem search_iff_firstFree : Search candidate taken 0 b ↔ FirstFree candidate taken b := by
  constructor
  · intro h
    obtain ⟨n, -, hb, hfree, hheld⟩ := h.exists_free
    exact ⟨n, hb, hfree, fun j hj => hheld j (Nat.zero_le j) hj⟩
  · rintro ⟨n, rfl, hfree, hheld⟩
    exact .of_held (fun j _ hj => hheld j hj) (Nat.zero_le n) (.found hfree)

/-- There is only one first free candidate. -/
theorem FirstFree.unique (h : FirstFree candidate taken b) (h' : FirstFree candidate taken b') :
    b = b' := by
  obtain ⟨n, rfl, hfree, hheld⟩ := h
  obtain ⟨m, rfl, hfree', hheld'⟩ := h'
  rcases lt_trichotomy n m with hlt | rfl | hlt
  · exact absurd (hheld' n hlt) hfree
  · rfl
  · exact absurd (hheld m hlt) hfree'

/-- What is found in a list of the first candidates is the first free one. -/
theorem firstFree_of_find [DecidableEq β] {used : List β}
    (h : ((List.range n).map candidate).find? (fun b => b ∉ used) = some b) :
    FirstFree candidate used.toFinset b := by
  rw [List.find?_map, Option.map_eq_some_iff] at h
  obtain ⟨k, hk, rfl⟩ := h
  obtain ⟨hfree, -, hheld⟩ := List.find?_range_eq_some.1 hk
  refine ⟨k, rfl, by simpa using hfree, ?_⟩
  intro j hj
  simpa using hheld j hj

/-- The first free candidate stays the first one where candidates and what is taken are told apart
by what is said about them. -/
theorem FirstFree.image [DecidableEq γ] {f : β → γ} (h : FirstFree candidate taken b)
    (hf : ∀ k, ∀ t ∈ taken, f t = f (candidate k) → t = candidate k) :
    FirstFree (fun k => f (candidate k)) (taken.image f) (f b) := by
  obtain ⟨k, rfl, hfree, hheld⟩ := h
  refine ⟨k, rfl, ?_, ?_⟩
  · intro hk
    obtain ⟨t, ht, he⟩ := Finset.mem_image.1 hk
    exact hfree (hf k t ht he ▸ ht)
  · intro j hj
    exact Finset.mem_image_of_mem f (hheld j hj)

end search

/-! ### Handing out -/

section handing

variable [DecidableEq β]

/-- Everyone in a list gets the first of his candidates that is free, which is taken from then on;
the sets are those of what is taken before and afterwards. -/
inductive HandsOut (candidate : α → Nat → β) : Finset β → List α → List β → Finset β → Prop
  /-- Nobody is left. -/
  | nil {taken : Finset β} : HandsOut candidate taken [] [] taken
  /-- The first one gets his, and the others follow. -/
  | cons {taken final : Finset β} {a : α} {as : List α} {b : β} {bs : List β}
      (first : Search (candidate a) taken 0 b)
      (rest : HandsOut candidate (insert b taken) as bs final) :
      HandsOut candidate taken (a :: as) (b :: bs) final

namespace HandsOut

variable {candidate : α → Nat → β} {taken final final' : Finset β} {as : List α} {bs bs' : List β}

/-- In the end there is taken what was taken before and what was handed out. -/
theorem final_eq (h : HandsOut candidate taken as bs final) : final = taken ∪ bs.toFinset := by
  induction h with
  | nil => simp
  | cons _ _ ih =>
    rw [ih, List.toFinset_cons, Finset.insert_union, Finset.union_insert]

/-- Nothing is handed out that was taken before. -/
theorem not_mem (h : HandsOut candidate taken as bs final) {b : β} (hb : b ∈ bs) : b ∉ taken := by
  induction h with
  | nil => cases hb
  | cons first _ ih =>
    rcases List.mem_cons.1 hb with rfl | hb
    · obtain ⟨k, rfl, hfree, -⟩ := search_iff_firstFree.1 first
      exact hfree
    · intro htaken
      exact ih hb (Finset.mem_insert_of_mem htaken)

/-- Nothing is handed out twice. -/
theorem nodup (h : HandsOut candidate taken as bs final) : bs.Nodup := by
  induction h with
  | nil => exact List.nodup_nil
  | cons _ rest ih =>
    apply List.nodup_cons.2
    refine ⟨?_, ih⟩
    intro hb
    exact rest.not_mem hb (Finset.mem_insert_self _ _)

/-- Everyone gets the first candidate that is neither taken at the beginning nor handed out to
somebody before. -/
theorem firstFree (h : HandsOut candidate taken as bs final) {i : Nat} {a : α}
    (ha : as[i]? = some a) :
    ∃ b, bs[i]? = some b ∧ FirstFree (candidate a) (taken ∪ (bs.take i).toFinset) b := by
  induction h generalizing i with
  | nil => simp at ha
  | @cons taken final a' as b bs first rest ih =>
    cases i with
    | zero =>
      obtain rfl : a' = a := by simpa using ha
      exact ⟨b, rfl, by simpa using search_iff_firstFree.1 first⟩
    | succ i =>
      obtain ⟨b', hb', hfree⟩ := ih (i := i) (by simpa using ha)
      refine ⟨b', by simpa using hb', ?_⟩
      rwa [List.take_succ_cons, List.toFinset_cons, Finset.union_insert, ← Finset.insert_union]

/-- There is only one way to hand out. -/
theorem unique (h : HandsOut candidate taken as bs final)
    (h' : HandsOut candidate taken as bs' final') : bs' = bs ∧ final' = final := by
  induction h generalizing bs' with
  | nil =>
    cases h'
    exact ⟨rfl, rfl⟩
  | cons first _ ih =>
    cases h' with
    | cons first' rest' =>
      obtain rfl := (search_iff_firstFree.1 first).unique (search_iff_firstFree.1 first')
      obtain ⟨rfl, rfl⟩ := ih rest'
      exact ⟨rfl, rfl⟩

/-- What is handed out can be told from one way to do it. -/
theorem iff_eq (h : HandsOut candidate taken as bs final) :
    HandsOut candidate taken as bs' final' ↔ bs' = bs ∧ final' = taken ∪ bs.toFinset := by
  rw [← h.final_eq]
  constructor
  · exact h.unique
  · rintro ⟨rfl, rfl⟩
    exact h

end HandsOut

end handing

end FileRoutes
