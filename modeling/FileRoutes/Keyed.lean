/-!
# Keyed lists

A finite map as a list of keys and values. A key is given a value at most once by the
functions below: a new key goes to the end, and a known one keeps its place.

## What is proved

* `get_put_self`, `get_put_of_ne` — putting a value changes that value and no other.
* `put_put` — of two values for a key the last one counts.
* `get_erase_self`, `get_erase_of_ne` — erasing a key takes its value and no other.
* `erase_put` — erasing a key that was new gives the list back.
* `get_of_mem`, `nodup_put`, `nodup_erase` — a key that occurs once has the value it occurs with,
  and no key comes to occur twice.
-/

namespace FileRoutes.Keyed

variable {κ α : Type} [DecidableEq κ]

/-- The value of a key. -/
def get? (key : κ) : List (κ × α) → Option α
  | [] => none
  | (k, v) :: rest => if k = key then some v else get? key rest

/-- The list with a value for a key. -/
def put (key : κ) (value : α) : List (κ × α) → List (κ × α)
  | [] => [(key, value)]
  | (k, v) :: rest => if k = key then (key, value) :: rest else (k, v) :: put key value rest

/-- The list without a key. -/
def erase (key : κ) : List (κ × α) → List (κ × α)
  | [] => []
  | (k, v) :: rest => if k = key then erase key rest else (k, v) :: erase key rest

theorem get_put_self (key : κ) (value : α) (l : List (κ × α)) :
    get? key (put key value l) = some value := by
  induction l with
  | nil => simp [put, get?]
  | cons m rest ih =>
    by_cases h : m.1 = key
    · simp [put, get?, h]
    · simp [put, get?, h, ih]

theorem get_put_of_ne {key other : κ} (h : other ≠ key) (value : α) (l : List (κ × α)) :
    get? other (put key value l) = get? other l := by
  induction l with
  | nil => simp [put, get?, Ne.symm h]
  | cons m rest ih =>
    by_cases hm : m.1 = key
    · simp [put, get?, hm, Ne.symm h]
    · by_cases ho : m.1 = other
      · simp [put, get?, ho, h]
      · simp [put, get?, hm, ho, ih]

theorem put_put (key : κ) (value other : α) (l : List (κ × α)) :
    put key value (put key other l) = put key value l := by
  induction l with
  | nil => simp [put]
  | cons m rest ih => by_cases hm : m.1 = key <;> simp [put, hm, ih]

theorem mem_of_get_eq_some {key : κ} {value : α} {l : List (κ × α)} (h : get? key l = some value) :
    (key, value) ∈ l := by
  induction l with
  | nil => simp [get?] at h
  | cons m rest ih =>
    by_cases hm : m.1 = key
    · obtain rfl : m.2 = value := by simpa [get?, hm] using h
      exact hm ▸ List.mem_cons_self
    · exact List.mem_cons_of_mem _ (ih (by simpa [get?, hm] using h))

theorem put_of_get_eq_none {key : κ} {l : List (κ × α)} (h : get? key l = none) (value : α) :
    put key value l = l ++ [(key, value)] := by
  induction l with
  | nil => rfl
  | cons m rest ih =>
    by_cases hm : m.1 = key
    · simp [get?, hm] at h
    · have hrest : get? key rest = none := by simpa [get?, hm] using h
      simp [put, hm, ih hrest]

/-- Putting the value that a key has changes nothing. -/
theorem put_of_get_eq_some {key : κ} {value : α} {l : List (κ × α)}
    (h : get? key l = some value) : put key value l = l := by
  induction l with
  | nil => cases h
  | cons m rest ih =>
    by_cases hm : m.1 = key
    · obtain rfl : m.2 = value := by simpa [get?, hm] using h
      simp [put, ← hm]
    · have hrest : get? key rest = some value := by simpa [get?, hm] using h
      simp [put, hm, ih hrest]

theorem get_eq_none_iff {key : κ} {l : List (κ × α)} :
    get? key l = none ↔ key ∉ l.map Prod.fst := by
  induction l with
  | nil => simp [get?]
  | cons m rest ih =>
    by_cases hm : m.1 = key
    · simp [get?, hm]
    · simp [get?, hm, ih, Ne.symm hm]

theorem get_erase_self (key : κ) (l : List (κ × α)) : get? key (erase key l) = none := by
  induction l with
  | nil => rfl
  | cons m rest ih => by_cases hm : m.1 = key <;> simp [erase, get?, hm, ih]

theorem get_erase_of_ne {key other : κ} (h : other ≠ key) (l : List (κ × α)) :
    get? other (erase key l) = get? other l := by
  induction l with
  | nil => rfl
  | cons m rest ih =>
    by_cases hm : m.1 = key
    · simp [erase, get?, hm, Ne.symm h, ih]
    · by_cases ho : m.1 = other <;> simp [erase, get?, hm, ho, ih, h]

theorem erase_of_get_eq_none {key : κ} {l : List (κ × α)} (h : get? key l = none) :
    erase key l = l := by
  induction l with
  | nil => rfl
  | cons m rest ih =>
    by_cases hm : m.1 = key
    · simp [get?, hm] at h
    · have hrest : get? key rest = none := by simpa [get?, hm] using h
      simp [erase, hm, ih hrest]

/-- Erasing a key takes away whatever was put for it. -/
theorem erase_put_self (key : κ) (value : α) (l : List (κ × α)) :
    erase key (put key value l) = erase key l := by
  induction l with
  | nil => simp [put, erase]
  | cons m rest ih => by_cases hm : m.1 = key <;> simp [put, erase, hm, ih]

/-! ### Keys that occur once -/

theorem get_of_mem {key : κ} {value : α} {l : List (κ × α)} (h : (l.map Prod.fst).Nodup)
    (hm : (key, value) ∈ l) : get? key l = some value := by
  induction l with
  | nil => cases hm
  | cons m rest ih =>
    rw [List.map_cons] at h
    obtain ⟨hnot, hrest⟩ := List.nodup_cons.1 h
    rcases List.mem_cons.1 hm with rfl | hm
    · simp [get?]
    · have hne : m.1 ≠ key := fun e => hnot (e ▸ List.mem_map_of_mem hm)
      simp [get?, hne, ih hrest hm]

theorem mem_keys_put {key other : κ} {value : α} {l : List (κ × α)} :
    other ∈ (put key value l).map Prod.fst ↔ other = key ∨ other ∈ l.map Prod.fst := by
  induction l with
  | nil => simp [put]
  | cons m rest ih =>
    by_cases hm : m.1 = key
    · simp [put, hm]
    · rw [put, if_neg hm, List.map_cons, List.mem_cons, ih, List.map_cons, List.mem_cons]
      exact or_left_comm

theorem mem_of_mem_erase {key : κ} {m : κ × α} {l : List (κ × α)} (h : m ∈ erase key l) :
    m ∈ l := by
  induction l with
  | nil => cases h
  | cons a rest ih =>
    by_cases ha : a.1 = key
    · exact List.mem_cons_of_mem _ (ih (by simpa [erase, ha] using h))
    · rw [erase, if_neg ha] at h
      rcases List.mem_cons.1 h with rfl | h
      · exact List.mem_cons_self
      · exact List.mem_cons_of_mem _ (ih h)

theorem mem_of_mem_put {key : κ} {value : α} {m : κ × α} {l : List (κ × α)}
    (h : m ∈ put key value l) : m = (key, value) ∨ m ∈ l := by
  induction l with
  | nil => exact .inl (by simpa [put] using h)
  | cons a rest ih =>
    by_cases ha : a.1 = key
    · rw [put, if_pos ha] at h
      rcases List.mem_cons.1 h with rfl | h
      · exact .inl rfl
      · exact .inr (List.mem_cons_of_mem _ h)
    · rw [put, if_neg ha] at h
      rcases List.mem_cons.1 h with rfl | h
      · exact .inr List.mem_cons_self
      · exact (ih h).imp_right (List.mem_cons_of_mem _)

theorem nodup_put {l : List (κ × α)} (h : (l.map Prod.fst).Nodup) (key : κ) (value : α) :
    ((put key value l).map Prod.fst).Nodup := by
  induction l with
  | nil => simp [put]
  | cons m rest ih =>
    rw [List.map_cons] at h
    obtain ⟨hnot, hrest⟩ := List.nodup_cons.1 h
    by_cases hm : m.1 = key
    · rw [put, if_pos hm, List.map_cons]
      exact List.nodup_cons.2 ⟨hm ▸ hnot, hrest⟩
    · rw [put, if_neg hm, List.map_cons]
      refine List.nodup_cons.2 ⟨fun hmem => ?_, ih hrest⟩
      exact (mem_keys_put.1 hmem).elim hm hnot

theorem nodup_erase {l : List (κ × α)} (h : (l.map Prod.fst).Nodup) (key : κ) :
    ((erase key l).map Prod.fst).Nodup := by
  induction l with
  | nil => simp [erase]
  | cons m rest ih =>
    rw [List.map_cons] at h
    obtain ⟨hnot, hrest⟩ := List.nodup_cons.1 h
    by_cases hm : m.1 = key
    · rw [erase, if_pos hm]
      exact ih hrest
    · rw [erase, if_neg hm, List.map_cons]
      refine List.nodup_cons.2 ⟨fun hmem => hnot ?_, ih hrest⟩
      obtain ⟨a, ha, he⟩ := List.mem_map.1 hmem
      exact he ▸ List.mem_map_of_mem (mem_of_mem_erase ha)

end FileRoutes.Keyed
