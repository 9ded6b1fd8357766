import FileRoutes.Route.Pattern
import Mathlib.Data.List.Basic

/-!
# Parameters in brackets

The pattern of a segment is made by reading it from left to right: a parameter in brackets is taken
as a whole, every other character by itself. What becomes of a character can also be told from the
brackets next to it alone. This module says both and shows that they agree, however the brackets of
a segment are nested, and whether or not each of them has another one.

## The model

* `Pairs` — two brackets that hold a parameter between them.
* `writtenAt`, `written` — what is written for each character of a segment, place by place.
* `bracketedNames` — the names in brackets, in order.
* `Part`, `Divides` — the parts of a segment, as they are found from left to right.

## What is proved

* `exists_divides` — every segment has parts.
* `Divides.parameterize`, `Divides.written`, `Divides.bracketedNames` — what its pattern, the places
  and the names in brackets are, by its parts.
* `parameterize_eq_written` — the pattern is what is written place by place.
-/

namespace FileRoutes.Route

/-! ### Pairs of brackets -/

/-- The characters between two places. -/
def between (cs : List Char) (i j : Nat) : List Char := (cs.take j).drop (i + 1)

/-- The bracket at `i` opens a parameter that the bracket at `j` closes: it is the next one, and it
does not follow at once. -/
structure Pairs (cs : List Char) (i j : Nat) : Prop where
  /-- At the first place stands a bracket that opens. -/
  opening : cs[i]? = some '['
  /-- At the second place stands a bracket that closes. -/
  closing : cs[j]? = some ']'
  /-- There is something between them. -/
  ne : between cs i j ≠ []
  /-- There is no bracket between them. -/
  free : ∀ c ∈ between cs i j, isBracket c = false

instance (cs : List Char) (i j : Nat) : Decidable (Pairs cs i j) :=
  decidable_of_iff (cs[i]? = some '[' ∧ cs[j]? = some ']' ∧ between cs i j ≠ [] ∧
      (between cs i j).all (fun c => isBracket c = false) = true)
    ⟨fun ⟨ho, hc, hn, hf⟩ => ⟨ho, hc, hn, by simpa using hf⟩,
      fun h => ⟨h.opening, h.closing, h.ne, by simpa using h.free⟩⟩

variable {cs : List Char} {i j : Nat}

theorem between_append (before name after : List Char) :
    between (before ++ '[' :: (name ++ ']' :: after)) before.length
      (before.length + 1 + name.length) = name := by
  have hfront : before ++ '[' :: (name ++ ']' :: after) =
      (before ++ ['[']) ++ (name ++ ']' :: after) := by simp
  have hlength : before.length + 1 = (before ++ ['[']).length := by simp
  rw [between, hfront, hlength, List.take_length_add_append, List.drop_left, List.take_left]

/-- Two brackets hold a parameter where a name without brackets stands between them. -/
theorem pairs_append {name : List Char} (before after : List Char) (hne : name ≠ [])
    (hfree : ∀ c ∈ name, isBracket c = false) :
    Pairs (before ++ '[' :: (name ++ ']' :: after)) before.length
      (before.length + 1 + name.length) := by
  have hfront : before ++ '[' :: (name ++ ']' :: after) =
      (before ++ '[' :: name) ++ ']' :: after := by simp
  have hlength : before.length + 1 + name.length = (before ++ '[' :: name).length := by
    rw [List.length_append, List.length_cons]
    omega
  refine ⟨?_, ?_, ?_, ?_⟩
  · rw [List.getElem?_append_right (Nat.le_refl _), Nat.sub_self]
    rfl
  · rw [hfront, hlength, List.getElem?_append_right (Nat.le_refl _), Nat.sub_self]
    rfl
  · rwa [between_append]
  · rwa [between_append]

theorem Pairs.lt (h : Pairs cs i j) : i + 1 < j := by
  have hlength := List.length_pos_iff.2 h.ne
  rw [between, List.length_drop, List.length_take] at hlength
  omega

theorem Pairs.lt_length (h : Pairs cs i j) : j < cs.length :=
  (List.getElem?_eq_some_iff.1 h.closing).1

/-- A bracket is closed by one other only. -/
theorem Pairs.unique {k : Nat} (hj : Pairs cs i j) (hk : Pairs cs i k) : j = k := by
  -- The earlier one of two would stand between the brackets of the other pair.
  have key : ∀ {a b : Nat}, Pairs cs i a → Pairs cs i b → ¬ a < b := by
    intro a b ha hb hlt
    have hmem : ']' ∈ between cs i b := by
      apply List.mem_of_getElem? (i := a - (i + 1))
      have hplace : i + 1 + (a - (i + 1)) = a := by
        have := ha.lt
        omega
      rw [between, List.getElem?_drop, hplace, List.getElem?_take_of_lt hlt, ha.closing]
    exact Bool.noConfusion (hb.free _ hmem)
  have hjk := key hj hk
  have hkj := key hk hj
  omega

/-- Brackets behind some characters are paired as without these. -/
theorem pairs_append_right (front : List Char) :
    Pairs (front ++ cs) (front.length + i) (front.length + j) ↔ Pairs cs i j := by
  have hget : ∀ k : Nat, (front ++ cs)[front.length + k]? = cs[k]? := by
    intro k
    rw [List.getElem?_append_right (Nat.le_add_right _ _), Nat.add_sub_cancel_left]
  have hbetween : between (front ++ cs) (front.length + i) (front.length + j) = between cs i j := by
    rw [between, List.take_length_add_append, Nat.add_assoc, List.drop_length_add_append, between]
  constructor
  · intro h
    exact ⟨hget i ▸ h.opening, hget j ▸ h.closing, hbetween ▸ h.ne, hbetween ▸ h.free⟩
  · intro h
    exact ⟨(hget i).trans h.opening, (hget j).trans h.closing, hbetween ▸ h.ne, hbetween ▸ h.free⟩

/-- What opens a parameter is a bracket that is paired with another. -/
theorem opensParameter_iff : opensParameter cs = true ↔
    ∃ name after, cs = name ++ ']' :: after ∧ name ≠ [] ∧ ∀ c ∈ name, isBracket c = false := by
  constructor
  · intro h
    have hsplit := List.takeWhile_append_dropWhile (p := (!isBracket ·)) (l := cs)
    unfold opensParameter at h
    cases hd : cs.dropWhile (!isBracket ·) with
    | nil => simp [hd] at h
    | cons c after =>
      rw [hd] at h hsplit
      obtain ⟨hc, hhead⟩ : c = ']' ∧ cs.head? ≠ some ']' := by simpa using h
      subst hc
      refine ⟨_, after, hsplit.symm, ?_, ?_⟩
      · intro hnil
        rw [hnil] at hsplit
        exact hhead (by rw [← hsplit]; rfl)
      · intro c hc
        have := List.all_eq_true.1 List.all_takeWhile c hc
        simpa using this
  · rintro ⟨name, after, rfl, hne, hfree⟩
    have hdrop : (name ++ ']' :: after).dropWhile (!isBracket ·) = ']' :: after := by
      rw [List.dropWhile_append_of_pos (by simpa using hfree)]
      rfl
    obtain ⟨c, rest, rfl⟩ := List.exists_cons_of_ne_nil hne
    have hc : c ≠ ']' := by
      rintro rfl
      exact Bool.noConfusion (hfree _ List.mem_cons_self)
    unfold opensParameter
    rw [hdrop]
    simp [hc]

/-! ### Places -/

/-- Whether the bracket at a place opens a parameter. -/
def Opens (cs : List Char) (i : Nat) : Prop := ∃ j < cs.length, Pairs cs i j

/-- Whether the bracket at a place closes a parameter. -/
def Closes (cs : List Char) (j : Nat) : Prop := ∃ i < cs.length, Pairs cs i j

instance (cs : List Char) (i : Nat) : Decidable (Opens cs i) :=
  decidable_of_iff ((List.range cs.length).any (fun j => Pairs cs i j) = true) (by simp [Opens])

instance (cs : List Char) (j : Nat) : Decidable (Closes cs j) :=
  decidable_of_iff ((List.range cs.length).any (fun i => Pairs cs i j) = true) (by simp [Closes])

/-- What is written for the character at a place: a colon for a bracket that opens a parameter,
nothing for one that closes it, and every other character as it is. -/
def writtenAt (cs : List Char) (i : Nat) (c : Char) : List Char :=
  if Opens cs i then [':'] else if Closes cs i then [] else [c]

/-- What is written for some characters, place by place. -/
def written (cs : List Char) : List Char := cs.zipIdx.flatMap fun m => writtenAt cs m.2 m.1

/-- The name in the brackets of which the first one stands at a place. -/
def nameAt? (cs : List Char) (i : Nat) : Option (List Char) :=
  ((List.range cs.length).find? fun j => Pairs cs i j).map (between cs i)

/-- The names in brackets, in order. -/
def bracketedNames (cs : List Char) : List (List Char) :=
  (List.range cs.length).filterMap (nameAt? cs)

theorem Pairs.opens (h : Pairs cs i j) : Opens cs i := ⟨j, h.lt_length, h⟩

theorem Pairs.closes (h : Pairs cs i j) : Closes cs j := by
  have := h.lt
  have := h.lt_length
  exact ⟨i, by omega, h⟩

theorem Opens.getElem (h : Opens cs i) : cs[i]? = some '[' := by
  obtain ⟨j, -, h⟩ := h
  exact h.opening

theorem Closes.getElem (h : Closes cs j) : cs[j]? = some ']' := by
  obtain ⟨i, -, h⟩ := h
  exact h.closing

theorem nameAt_of_pairs (h : Pairs cs i j) : nameAt? cs i = some (between cs i j) := by
  obtain ⟨k, hk⟩ := Option.isSome_iff_exists.1
    (List.find?_isSome (p := fun j => Pairs cs i j).2
      ⟨j, List.mem_range.2 h.lt_length, by simpa using h⟩)
  obtain rfl : k = j := by
    have hpairs : Pairs cs i k := by simpa using List.find?_some hk
    exact hpairs.unique h
  rw [nameAt?, hk, Option.map_some]

theorem nameAt_of_not_opens (h : ¬ Opens cs i) : nameAt? cs i = none := by
  rw [nameAt?, Option.map_eq_none_iff, List.find?_eq_none]
  intro j hj
  simpa using fun hpairs => h ⟨j, List.mem_range.1 hj, hpairs⟩

theorem writtenAt_of_free {c : Char} (hget : cs[i]? = some c) (hc : isBracket c = false) :
    writtenAt cs i c = [c] := by
  have hopens : ¬ Opens cs i := by
    intro h
    obtain rfl := Option.some.inj (hget.symm.trans h.getElem)
    exact Bool.noConfusion hc
  have hcloses : ¬ Closes cs i := by
    intro h
    obtain rfl := Option.some.inj (hget.symm.trans h.getElem)
    exact Bool.noConfusion hc
  rw [writtenAt, if_neg hopens, if_neg hcloses]

/-! ### A part in front -/

/-- Some characters that no pair of brackets leads out of. -/
def ClosedBefore (front cs : List Char) : Prop :=
  ∀ i j, Pairs (front ++ cs) i j → j < front.length ∨ front.length ≤ i

theorem opens_append_right (front : List Char) :
    Opens (front ++ cs) (front.length + i) ↔ Opens cs i := by
  constructor
  · rintro ⟨j, -, h⟩
    obtain ⟨k, rfl⟩ := Nat.exists_eq_add_of_le (show front.length ≤ j by have := h.lt; omega)
    exact ((pairs_append_right front).1 h).opens
  · rintro ⟨j, -, h⟩
    exact ((pairs_append_right front).2 h).opens

section front

variable {front : List Char} (h : ClosedBefore front cs)
include h

theorem closes_append_right : Closes (front ++ cs) (front.length + j) ↔ Closes cs j := by
  constructor
  · rintro ⟨i, -, hpairs⟩
    have hi : front.length ≤ i := by
      rcases h _ _ hpairs with hlt | hle
      · omega
      · exact hle
    obtain ⟨k, rfl⟩ := Nat.exists_eq_add_of_le hi
    exact ((pairs_append_right front).1 hpairs).closes
  · rintro ⟨i, -, hpairs⟩
    exact ((pairs_append_right front).2 hpairs).closes

/-- What is written for the characters behind a part is written as without it. -/
theorem written_append : written (front ++ cs) =
    front.zipIdx.flatMap (fun m => writtenAt (front ++ cs) m.2 m.1) ++ written cs := by
  have hshift : ∀ (k : Nat) (c : Char),
      writtenAt (front ++ cs) (front.length + k) c = writtenAt cs k c := by
    intro k c
    simp only [writtenAt, opens_append_right, closes_append_right h]
  rw [written, List.zipIdx_append, List.flatMap_append, Nat.zero_add]
  congr 1
  rw [List.zipIdx_eq_map_add, List.flatMap_map]
  exact List.flatMap_congr fun m _ => hshift m.2 m.1

end front

theorem nameAt_append_right (front : List Char) :
    nameAt? (front ++ cs) (front.length + i) = nameAt? cs i := by
  by_cases h : Opens cs i
  · obtain ⟨j, -, hpairs⟩ := h
    have hright := (pairs_append_right front).2 hpairs
    rw [nameAt_of_pairs hpairs, nameAt_of_pairs hright, between, List.take_length_add_append,
      Nat.add_assoc, List.drop_length_add_append, between]
  · rw [nameAt_of_not_opens h, nameAt_of_not_opens (mt (opens_append_right front).1 h)]

/-- The names in brackets behind a part are those without it. -/
theorem bracketedNames_append (front back : List Char) : bracketedNames (front ++ back) =
    (List.range front.length).filterMap (nameAt? (front ++ back)) ++ bracketedNames back := by
  rw [bracketedNames, List.length_append, List.range_add, List.filterMap_append,
    List.filterMap_map]
  congr 1
  exact List.filterMap_congr fun i _ => nameAt_append_right front

/-! ### Parts -/

/-- A part of a segment. -/
inductive Part where
  /-- A character that stands for itself. -/
  | plain (c : Char)
  /-- A parameter, by its name. -/
  | parameter (name : List Char)
deriving DecidableEq, Inhabited

namespace Part

/-- How a part is spelled in a segment. -/
def source : Part → List Char
  | plain c => [c]
  | parameter name => '[' :: (name ++ [']'])

/-- How a part is spelled in a pattern. -/
def pattern : Part → List Char
  | plain c => [c]
  | parameter name => ':' :: name

/-- The name of a parameter. -/
def name? : Part → Option (List Char)
  | plain _ => none
  | parameter name => some name

end Part

/-- The parts of some characters, read from left to right: a parameter is taken as a whole where one
begins, and otherwise the next character by itself. -/
inductive Divides : List Char → List Part → Prop
  /-- There is nothing left. -/
  | nil : Divides [] []
  /-- A parameter begins here. -/
  | parameter {name rest : List Char} {parts : List Part} (ne : name ≠ [])
      (free : ∀ c ∈ name, isBracket c = false) (h : Divides rest parts) :
      Divides ('[' :: (name ++ ']' :: rest)) (.parameter name :: parts)
  /-- No parameter begins here. -/
  | plain {c : Char} {rest : List Char} {parts : List Part} (none : ¬ Opens (c :: rest) 0)
      (h : Divides rest parts) : Divides (c :: rest) (.plain c :: parts)

/-- A parameter begins where a bracket stands that opens one. -/
theorem opens_zero_iff {c : Char} :
    Opens (c :: cs) 0 ↔ c = '[' ∧ opensParameter cs = true := by
  rw [opensParameter_iff]
  constructor
  · rintro ⟨j, -, h⟩
    obtain rfl : c = '[' := Option.some.inj h.opening
    refine ⟨rfl, between ('[' :: cs) 0 j, cs.drop j, ?_, h.ne, h.free⟩
    obtain ⟨k, rfl⟩ := Nat.exists_eq_add_of_lt (Nat.lt_of_succ_lt h.lt)
    have hclosing := h.closing
    simp only [Nat.zero_add, List.getElem?_cons_succ] at hclosing
    obtain ⟨hk, hget⟩ := List.getElem?_eq_some_iff.1 hclosing
    simp only [between, Nat.zero_add, List.take_succ_cons, List.drop_succ_cons, List.drop_zero]
    rw [← hget, ← List.drop_eq_getElem_cons, List.take_append_drop]
  · rintro ⟨rfl, name, after, rfl, hne, hfree⟩
    exact (pairs_append [] after hne hfree).opens

theorem exists_divides : ∀ cs : List Char, ∃ parts, Divides cs parts
  | [] => ⟨[], .nil⟩
  | c :: cs => by
    by_cases h : Opens (c :: cs) 0
    · obtain ⟨rfl, hopens⟩ := opens_zero_iff.1 h
      obtain ⟨name, after, hcs, hne, hfree⟩ := opensParameter_iff.1 hopens
      have hshorter : after.length < ('[' :: cs).length := by
        rw [hcs, List.length_cons, List.length_append, List.length_cons]
        omega
      obtain ⟨parts, hparts⟩ := exists_divides after
      rw [hcs]
      exact ⟨_, .parameter hne hfree hparts⟩
    · obtain ⟨parts, hparts⟩ := exists_divides cs
      exact ⟨_, .plain h hparts⟩
termination_by cs => cs.length
decreasing_by
  · exact hshorter
  · exact Nat.lt_succ_self _

/-! ### What parts come to -/

theorem parameterize_name {name : List Char} (hfree : ∀ c ∈ name, isBracket c = false)
    (rest : List Char) :
    parameterize true (name ++ ']' :: rest) = name ++ parameterize false rest := by
  induction name with
  | nil => simp [parameterize]
  | cons c name ih =>
    obtain ⟨hopen, hclose⟩ : c ≠ '[' ∧ c ≠ ']' := by
      have := hfree c List.mem_cons_self
      simpa [isBracket] using this
    rw [List.cons_append, parameterize]
    simp only [hopen, hclose, beq_iff_eq, Bool.and_eq_true, false_and, if_false, List.cons_append]
    rw [ih fun d hd => hfree d (List.mem_cons_of_mem _ hd)]

/-- The pattern of a segment is that of its parts. -/
theorem Divides.parameterize {parts : List Part} (h : Divides cs parts) :
    parameterize false cs = parts.flatMap Part.pattern := by
  induction h with
  | nil => rfl
  | @parameter name rest parts hne hfree _ ih =>
    have hopens : opensParameter (name ++ ']' :: rest) = true :=
      opensParameter_iff.2 ⟨name, rest, rfl, hne, hfree⟩
    rw [Route.parameterize, hopens, List.flatMap_cons, ← ih, if_pos (by decide),
      parameterize_name hfree]
    rfl
  | @plain c rest parts hnone _ ih =>
    have hopens : (c == '[' && opensParameter rest) = false := by
      rw [Bool.eq_false_iff]
      intro h
      exact hnone (opens_zero_iff.2 (by simpa using h))
    rw [Route.parameterize, hopens, List.flatMap_cons, ← ih]
    simp [Part.pattern]

/-- No pair of brackets leads out of a part. -/
theorem closedBefore_plain {c : Char} (h : ¬ Opens (c :: cs) 0) : ClosedBefore [c] cs := by
  intro i j hpairs
  right
  cases i with
  | zero => exact absurd hpairs.opens h
  | succ i => simp

/-- Behind the first bracket of a parameter and up to its last there is no bracket that opens. -/
theorem not_opens_parameter {name rest : List Char} (hfree : ∀ c ∈ name, isBracket c = false)
    (hi : 0 < i) (hlt : i < name.length + 2) : ¬ Opens ('[' :: (name ++ ']' :: rest)) i := by
  intro h
  obtain ⟨k, rfl⟩ := Nat.exists_eq_add_of_lt hi
  have hget := h.getElem
  simp only [Nat.zero_add, List.getElem?_cons_succ] at hget
  by_cases hk : k < name.length
  · rw [List.getElem?_append_left hk] at hget
    exact Bool.noConfusion (hfree _ (List.mem_of_getElem? hget))
  · obtain rfl : k = name.length := by omega
    rw [List.getElem?_append_right (Nat.le_refl _), Nat.sub_self] at hget
    exact absurd hget (by simp)

theorem pairs_parameter {name rest : List Char} (hne : name ≠ [])
    (hfree : ∀ c ∈ name, isBracket c = false) :
    Pairs ('[' :: (name ++ ']' :: rest)) 0 (name.length + 1) := by
  have h := pairs_append [] rest hne hfree
  rwa [List.length_nil, Nat.zero_add, Nat.add_comm] at h

theorem closedBefore_parameter {name rest : List Char} (hne : name ≠ [])
    (hfree : ∀ c ∈ name, isBracket c = false) :
    ClosedBefore ('[' :: (name ++ [']'])) rest := by
  intro i j hpairs
  have hcs : '[' :: (name ++ [']']) ++ rest = '[' :: (name ++ ']' :: rest) := by simp
  have hlength : ('[' :: (name ++ [']'])).length = name.length + 2 := by simp
  rw [hcs] at hpairs
  rw [hlength]
  by_cases hi : i = 0
  · subst hi
    have := (pairs_parameter hne hfree).unique hpairs
    omega
  · right
    by_contra hlt
    exact not_opens_parameter hfree (by omega) (by omega) hpairs.opens

/-- What is written place by place is the pattern of the parts. -/
theorem Divides.written {parts : List Part} (h : Divides cs parts) :
    written cs = parts.flatMap Part.pattern := by
  induction h with
  | nil => rfl
  | @parameter name rest parts hne hfree _ ih =>
    have hpairs : Pairs ('[' :: (name ++ ']' :: rest)) 0 (name.length + 1) :=
      pairs_parameter hne hfree
    have hcs : '[' :: (name ++ ']' :: rest) = '[' :: (name ++ [']']) ++ rest := by simp
    have hfirst : writtenAt ('[' :: (name ++ ']' :: rest)) 0 '[' = [':'] := if_pos hpairs.opens
    have hlast : writtenAt ('[' :: (name ++ ']' :: rest)) (1 + name.length) ']' = [] := by
      rw [Nat.add_comm, writtenAt, if_neg (not_opens_parameter hfree (by omega) (by omega)),
        if_pos hpairs.closes]
    have hname : (name.zipIdx 1).flatMap
        (fun m => writtenAt ('[' :: (name ++ ']' :: rest)) m.2 m.1) = name := by
      have hplain : ∀ m ∈ name.zipIdx 1,
          writtenAt ('[' :: (name ++ ']' :: rest)) m.2 m.1 = [m.1] := by
        rintro ⟨c, k⟩ hm
        obtain ⟨hle, hlt, hc⟩ := List.mem_zipIdx hm
        obtain ⟨k, rfl⟩ := Nat.exists_eq_add_of_le hle
        have hk : k < name.length := by omega
        refine writtenAt_of_free ?_ (hfree _ (List.fst_mem_of_mem_zipIdx hm))
        rw [Nat.add_comm 1 k, List.getElem?_cons_succ, List.getElem?_append_left hk, hc]
        simp
      rw [List.flatMap_congr hplain, ← List.map_eq_flatMap, List.zipIdx_map_fst]
    rw [hcs, written_append (closedBefore_parameter hne hfree), ← hcs, ih, List.flatMap_cons]
    congr 1
    rw [List.zipIdx_cons, List.zipIdx_append, List.flatMap_cons, List.flatMap_append, hfirst]
    simp only [Nat.zero_add, List.zipIdx_cons, List.zipIdx_nil, List.flatMap_cons,
      List.flatMap_nil, hlast, hname]
    simp [Part.pattern]
  | @plain c rest parts hnone _ ih =>
    have hwritten : writtenAt (c :: rest) 0 c = [c] := by
      have hcloses : ¬ Closes (c :: rest) 0 := by
        rintro ⟨i, -, h⟩
        have := h.lt
        omega
      rw [writtenAt, if_neg hnone, if_neg hcloses]
    have happend := written_append (closedBefore_plain hnone)
    rw [List.singleton_append] at happend
    rw [happend, ih, List.flatMap_cons]
    simp [hwritten, Part.pattern]

/-- The names in brackets are those of the parameters among the parts. -/
theorem Divides.bracketedNames {parts : List Part} (h : Divides cs parts) :
    bracketedNames cs = parts.filterMap Part.name? := by
  induction h with
  | nil => rfl
  | @parameter name rest parts hne hfree _ ih =>
    have hcs : '[' :: (name ++ ']' :: rest) = '[' :: (name ++ [']']) ++ rest := by simp
    have hlength : ('[' :: (name ++ [']'])).length = name.length + 1 + 1 := by simp
    have hfirst : nameAt? ('[' :: (name ++ ']' :: rest)) 0 = some name := by
      have hname := between_append [] name rest
      rw [List.length_nil, Nat.zero_add, Nat.add_comm] at hname
      rw [nameAt_of_pairs (pairs_parameter hne hfree)]
      exact congrArg some hname
    have hothers : ((List.range (name.length + 1)).map Nat.succ).filterMap
        (nameAt? ('[' :: (name ++ ']' :: rest))) = [] := by
      refine List.filterMap_eq_nil_iff.2 fun i hi => ?_
      obtain ⟨k, hk, rfl⟩ := List.mem_map.1 hi
      have hlt := List.mem_range.1 hk
      exact nameAt_of_not_opens (not_opens_parameter hfree (by omega) (by omega))
    rw [hcs, bracketedNames_append, ← hcs, ih, hlength, List.range_succ_eq_map,
      List.filterMap_cons_some hfirst, hothers]
    rfl
  | @plain c rest parts hnone _ ih =>
    have happend := bracketedNames_append [c] rest
    rw [List.singleton_append] at happend
    rw [happend, ih, List.filterMap_cons_none rfl]
    simp [List.range_succ, nameAt_of_not_opens hnone]

/-- The pattern of a segment is what is written for its characters, place by place. -/
theorem parameterize_eq_written (cs : List Char) : parameterize false cs = written cs := by
  obtain ⟨parts, h⟩ := exists_divides cs
  rw [h.parameterize, h.written]

/-- Nested and lone brackets stay, and so do two brackets with nothing between them. -/
example : written "[a[b]][]-[c].[".toList = "[a:b][]-:c.[".toList := by decide

end FileRoutes.Route
