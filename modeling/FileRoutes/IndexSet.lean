/-!
# Sets of small numbers

A set of numbers below some small bound is kept as the number whose binary digits say which
of them are in it, so that sets are joined and searched a word at a time.

## The model

* `IndexSet` — a set, with its bits.
* `IndexSet.contains` — membership; every operation is described by what it contains.
-/

namespace FileRoutes

/-- A set of numbers. -/
structure IndexSet where
  /-- The number whose binary digit `i` is set where `i` is in the set. -/
  bits : Nat
deriving DecidableEq, Inhabited

namespace IndexSet

/-- The set without members. -/
def empty : IndexSet := ⟨0⟩

/-- Whether a number is in the set. -/
def contains (s : IndexSet) (i : Nat) : Bool := s.bits.testBit i

/-- Whether a set has no members. -/
def isEmpty (s : IndexSet) : Bool := s.bits == 0

/-- The set of one number. -/
def single (i : Nat) : IndexSet := ⟨1 <<< i⟩

/-- The members of either set. -/
def union (s t : IndexSet) : IndexSet := ⟨s.bits ||| t.bits⟩

/-- The members of the first set that are not in the second. -/
def without (s t : IndexSet) : IndexSet := ⟨s.bits ^^^ (s.bits &&& t.bits)⟩

/-- The greatest member of a set that has one. -/
def greatest (s : IndexSet) : Nat := s.bits.log2

/-- The set with a number put in. -/
def insert (i : Nat) (s : IndexSet) : IndexSet := union (single i) s

/-- The members of any of the sets. -/
def unions (sets : List IndexSet) : IndexSet := sets.foldl union empty

@[simp] theorem contains_empty (i : Nat) : empty.contains i = false := by
  simp [empty, contains]

@[simp] theorem contains_single (i j : Nat) : (single i).contains j = decide (i = j) := by
  rw [contains, single, Nat.one_shiftLeft, Nat.testBit_two_pow]

@[simp] theorem contains_union (s t : IndexSet) (i : Nat) :
    (union s t).contains i = (s.contains i || t.contains i) := by
  simp [union, contains]

@[simp] theorem contains_without (s t : IndexSet) (i : Nat) :
    (without s t).contains i = (s.contains i && !t.contains i) := by
  simp only [without, contains, Nat.testBit_xor, Nat.testBit_and]
  cases s.bits.testBit i <;> simp

@[simp] theorem contains_insert (s : IndexSet) (i j : Nat) :
    (insert i s).contains j = (decide (i = j) || s.contains j) := by
  simp [insert]

/-- The greatest member of a set is in it. -/
theorem contains_greatest {s : IndexSet} (h : s.isEmpty = false) :
    s.contains s.greatest = true := by
  have positive : s.bits ≠ 0 := by simpa [isEmpty] using h
  exact Nat.testBit_log2 positive

end IndexSet

end FileRoutes
