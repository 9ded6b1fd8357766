import FileRoutes.Proofs.FirstFree
import FileRoutes.Proofs.Names

/-!
# Identifiers that are made and handed out

Every text has an identifier of its own, which is the text itself exactly where that is an
identifier already. Those who ask for the same one are kept apart by suffixes, and however the
names with suffixes and the names that look like them fall between each other, everyone gets the
first form of his name that is free.

## The model

* `IsIdentifier` — a name that may be bound and is none of the words that are reserved.
* `replaced` — a text with `_` in place of the characters that no name is spelled with.
* `formOf` — the forms of a name: without a suffix, then with `_1`, `_2` and so on.
* `GivenFor` — the name that is given to who asks for one.

## What is proved

* `isUsable_iff` — the names that are called usable are the identifiers.
* `mem_reservedWords_iff` — which words are reserved.
* `sanitize_cases` — what the identifier of a text is.
* `sanitize_retraction` — it is an identifier, and the text itself where that is one.
* `handsOut_freshAll` — free names are those that are handed out.

The main statement about lists of names is `freshAll_handsOut`.
-/

namespace FileRoutes.Identifier

/-! ### Identifiers -/

/-- A name that may be bound and is none of the words that are reserved. -/
structure IsIdentifier (name : String) : Prop extends Bindable name where
  /-- It is none of the words. -/
  notReserved : name ∉ reservedWords

/-- Besides the words that may not be bound only `undefined` is reserved, which may be. -/
theorem mem_reservedWords_iff {word : String} :
    word ∈ reservedWords ↔ word ∈ strictWords ∨ word = "undefined" := by
  have hleft : ∀ w ∈ reservedWords, w ∈ strictWords ∨ w = "undefined" := by decide
  have hright : ∀ w ∈ strictWords, w ∈ reservedWords := by decide
  constructor
  · exact hleft word
  · rintro (h | rfl)
    · exact hright word h
    · decide

/-- A letter is no digit: it has a greater number than any of them. -/
theorem isDigit_eq_false_of_isAlpha {c : Char} (h : c.isAlpha = true) : c.isDigit = false := by
  have hletter : 65 ≤ c.toNat := by
    rcases Bool.or_eq_true_iff.1 h with hupper | hlower
    · exact UInt32.le_iff_toNat_le.1 (of_decide_eq_true hupper).1
    · have hsmall : 97 ≤ c.toNat :=
        UInt32.le_iff_toNat_le.1 (of_decide_eq_true (Bool.and_eq_true_iff.1 hlower).1)
      omega
  apply Bool.eq_false_iff.2
  intro hdigit
  have hle : c.toNat ≤ 57 := (Char.isDigit_iff_toNat.1 hdigit).2
  omega

/-- The usable names are the identifiers. -/
theorem isUsable_iff {name : String} : isUsable name = true ↔ IsIdentifier name := by
  constructor
  · intro h
    refine ⟨bindable_of_isUsable h, ?_⟩
    have hr := (Bool.and_eq_true_iff.1 h).2
    simpa [isReserved] using hr
  · rintro ⟨⟨⟨c, cs, hc, hfirst, hrest⟩, -⟩, hreserved⟩
    have hletter : isLetter c = true := by
      rw [isLetter_iff]
      rcases hfirst with ha | hc
      · left
        simp [Char.isAlphanum, ha]
      · exact .inr hc
    have hdigit : c.isDigit = false := by
      rcases hfirst with ha | rfl | rfl
      · exact isDigit_eq_false_of_isAlpha ha
      · decide
      · decide
    have hletters : ∀ d ∈ cs, isLetter d = true := by
      intro d hd
      exact (isLetter_iff d).2 (hrest d hd)
    rw [isUsable, hc]
    simp [isSpelled, hdigit, hletter, isReserved, hreserved]
    exact hletters

/-! ### Identifiers of texts -/

/-- A text with `_` in place of the characters that no name is spelled with. -/
def replaced (raw : String) : String := String.ofList (raw.toList.map replace)

/-- What starts with `_` is no reserved word, and `_` is no digit. -/
theorem underscore_append (text : String) :
    "_" ++ text ∉ reservedWords ∧ ∀ c ∈ ("_" ++ text).toList.head?, c.isDigit = false := by
  constructor
  · have h := isReserved_underscore text.toList
    have he : String.ofList ('_' :: text.toList) = "_" ++ text := by
      apply String.toList_inj.1
      simp
    rw [he] at h
    simpa [isReserved] using h
  · intro c hc
    obtain rfl : c = '_' := by simpa using hc.symm
    decide

/-- The identifier of a text is the text with its characters replaced, behind a `_` where that
would be empty, start with a digit or be a reserved word. -/
theorem sanitize_cases (raw : String) :
    (sanitize raw = replaced raw ∧ IsIdentifier (replaced raw)) ∨
      (sanitize raw = "_" ++ replaced raw ∧ (replaced raw = "" ∨
        (∃ c ∈ (replaced raw).toList.head?, c.isDigit = true) ∨ replaced raw ∈ reservedWords)) := by
  have hlist : (replaced raw).toList = raw.toList.map replace := String.toList_ofList
  have hsanitize : sanitize raw =
      if isUsable (replaced raw) then replaced raw else "_" ++ replaced raw := by
    have hprefix : String.ofList ('_' :: raw.toList.map replace) = "_" ++ replaced raw := by
      apply String.toList_inj.1
      simp [replaced]
    rw [sanitize, isUsable, hlist, hprefix]
    rfl
  by_cases hu : isUsable (replaced raw) = true
  · left
    exact ⟨by rw [hsanitize, if_pos hu], isUsable_iff.1 hu⟩
  · right
    refine ⟨by rw [hsanitize, if_neg hu], ?_⟩
    by_contra hno
    simp only [not_or, not_exists, not_and, Bool.not_eq_true] at hno
    obtain ⟨hempty, hdigit, hreserved⟩ := hno
    apply hu
    have hletters := all_isLetter_map_replace raw.toList
    rw [← hlist] at hletters
    cases hc : (replaced raw).toList with
    | nil => exact absurd (by simpa using hc) hempty
    | cons c cs =>
      rw [hc] at hletters hdigit
      rw [isUsable, hc, isSpelled, hletters, hdigit c rfl]
      simpa [isReserved] using hreserved

/-- **The identifier of a text.** It is an identifier whatever the text is, and the text itself
exactly where that is an identifier already; so the identifier of an identifier is the same one.
Where it is not the text with its characters replaced, that stands behind a `_`, and what starts
with `_` neither is a reserved word nor starts with a digit. -/
theorem sanitize_retraction (raw : String) :
    IsIdentifier (sanitize raw) ∧
      (sanitize raw = raw ↔ IsIdentifier raw) ∧
      sanitize (sanitize raw) = sanitize raw ∧
      (sanitize raw = replaced raw ∨ sanitize raw = "_" ++ replaced raw) ∧
      "_" ++ raw ∉ reservedWords ∧ ∀ c ∈ ("_" ++ raw).toList.head?, c.isDigit = false := by
  have hmade : IsIdentifier (sanitize raw) := isUsable_iff.1 (sanitize_isUsable raw)
  refine ⟨hmade, ?_, ?_, ?_, underscore_append raw⟩
  · constructor
    · intro h
      rwa [h] at hmade
    · intro h
      exact sanitize_of_isUsable (isUsable_iff.2 h)
  · exact sanitize_of_isUsable (sanitize_isUsable raw)
  · exact (sanitize_cases raw).imp And.left And.left

/-- Texts without any letter, with a digit in front, and reserved words. -/
example : sanitize "" = "_" ∧ sanitize "2fa" = "_2fa" ∧ sanitize "a.b c" = "a_b_c" ∧
    sanitize "class" = "_class" := by decide

/-! ### Names with suffixes -/

/-- The forms of a name: without a suffix, and with one after the other. -/
def formOf (name : String) : Nat → String
  | 0 => name
  | k + 1 => suffixed name (k + 1)

/-- The name that is found for another one is its first form that is free. -/
theorem firstFree_fresh (used : List String) (name : String) :
    FirstFree (formOf name) used.toFinset (fresh used name) := by
  -- The name itself is one more candidate, in front of those with suffixes.
  have hforms : (List.range (used.length + 2)).map (formOf name) =
      name :: candidates name (used.length + 1) := by
    rw [List.range_succ_eq_map, List.map_cons, List.map_map]
    rfl
  apply firstFree_of_find (n := used.length + 2)
  rw [hforms]
  have hfree := fresh_not_mem used name
  unfold fresh at hfree ⊢
  by_cases hu : name ∈ used
  · rw [if_pos hu] at hfree ⊢
    rw [List.find?_cons_of_neg (by simpa using hu)]
    cases hf : (candidates name (used.length + 1)).find? fun s => s ∉ used with
    | none =>
      rw [hf] at hfree
      exact absurd hu hfree
    | some s => rfl
  · rw [if_neg hu, List.find?_cons_of_pos (by simpa using hu)]

/-- Free names for a list are handed out from its first name on. -/
theorem handsOut_freshAll (used names : List String) :
    HandsOut formOf used.toFinset names (freshAll used names)
      (used.toFinset ∪ (freshAll used names).toFinset) := by
  induction names generalizing used with
  | nil => simpa [freshAll] using HandsOut.nil
  | cons name rest ih =>
    have hrest := ih (fresh used name :: used)
    rw [List.toFinset_cons] at hrest
    rw [freshAll, List.toFinset_cons, Finset.union_insert, ← Finset.insert_union]
    exact .cons (search_iff_firstFree.2 (firstFree_fresh used name)) hrest

/-- What is given to who asks for a name while some names are taken: the name itself where it is
free, and otherwise its form with the least suffix that is free. -/
structure GivenFor (taken : Finset String) (name given : String) : Prop where
  /-- A free name is given as it is. -/
  kept : name ∉ taken → given = name
  /-- A name that is taken gets a suffix, the least one with which it is free. -/
  suffix : name ∈ taken → ∃ k, 1 ≤ k ∧ given = suffixed name k ∧ suffixed name k ∉ taken ∧
    ∀ j, 1 ≤ j → j < k → suffixed name j ∈ taken
  /-- An identifier gets an identifier. -/
  isIdentifier : IsIdentifier name → IsIdentifier given

theorem givenFor_of_firstFree {taken : Finset String} {name given : String}
    (h : FirstFree (formOf name) taken given) : GivenFor taken name given := by
  obtain ⟨k, rfl, hfree, hheld⟩ := h
  cases k with
  | zero => exact ⟨fun _ => rfl, fun hname => absurd hname hfree, id⟩
  | succ k =>
    have hname : name ∈ taken := hheld 0 (Nat.succ_pos k)
    refine ⟨fun hno => absurd hname hno, fun _ => ⟨k + 1, by omega, rfl, hfree, ?_⟩, ?_⟩
    · intro j hj hjk
      obtain ⟨i, rfl⟩ : ∃ i, j = i + 1 := ⟨j - 1, by omega⟩
      exact hheld (i + 1) hjk
    · intro hi
      exact isUsable_iff.1 (isUsable_suffixed (isUsable_iff.2 hi) (k + 1))

/-- **Names are handed out.** Whatever names are taken at the beginning, there is one way to hand
out names to a list, and it gives the free names for the list; besides the names at the beginning,
they alone are taken in the end. They differ from each other and from those at the beginning, and
each of them is what is given for its name while those at the beginning and the earlier ones are
taken. -/
theorem freshAll_handsOut (used names : List String) :
    (∀ found final, HandsOut formOf used.toFinset names found final ↔
      found = freshAll used names ∧ final = used.toFinset ∪ (freshAll used names).toFinset) ∧
    (freshAll used names).Nodup ∧
    (∀ s ∈ freshAll used names, s ∉ used) ∧
    ∀ i name, names[i]? = some name → ∃ given, (freshAll used names)[i]? = some given ∧
      GivenFor (used.toFinset ∪ ((freshAll used names).take i).toFinset) name given := by
  have hout := handsOut_freshAll used names
  refine ⟨fun found final => hout.iff_eq, hout.nodup, ?_, ?_⟩
  · intro s hs
    simpa using hout.not_mem hs
  · intro i name hname
    obtain ⟨given, hgiven, hfree⟩ := hout.firstFree hname
    exact ⟨given, hgiven, givenFor_of_firstFree hfree⟩

/-- A name that looks like one with a suffix gets in the way of the others. -/
example : freshAll ["router"] ["router", "users_1", "users", "users", "users"] =
    ["router_1", "users_1", "users", "users_2", "users_3"] := by decide

end FileRoutes.Identifier
