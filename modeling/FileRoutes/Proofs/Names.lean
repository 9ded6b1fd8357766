import FileRoutes.Proofs.Scans

/-!
# Names that modules may bind

What a name has to look like for strict module code to bind it is said here without the
procedure that makes names. Every name that the procedure makes is such a name, also after it
has been given a suffix, and a whole list of them stays free of repetitions.

## The model

* `strictWords`, `Bindable` — the words that may not be bound, and the names that may be.

## What is proved

* `isUsable_fresh` — a free name is usable where the name asked for is.
* `nodup_freshAll` — free names differ from each other and from those in use.
* `mem_freshAll_iff`, `sanitize_eq_iff` — a name without a `_` is only given to who asks for it.
* `identifiers_scan` — so do the identifiers of a manifest, and all of them are usable.
-/

namespace FileRoutes

namespace Identifier

/-! ### Bindable names -/

/-- The words that strict module code reserves, and the two names that it lets no one bind. -/
def strictWords : List String :=
  ["await", "break", "case", "catch", "class", "const", "continue", "debugger", "default",
    "delete", "do", "else", "enum", "export", "extends", "false", "finally", "for", "function",
    "if", "import", "in", "instanceof", "new", "null", "return", "super", "switch", "this",
    "throw", "true", "try", "typeof", "var", "void", "while", "with", "yield"] ++
  ["implements", "interface", "let", "package", "private", "protected", "public", "static"] ++
  ["arguments", "eval"]

/-- A name that module code may bind: letters, digits, `_` and `$`, no digit in front, and no
word that is reserved. -/
structure Bindable (name : String) : Prop where
  /-- It is spelled as a name. -/
  spelled : ∃ c cs, name.toList = c :: cs ∧ (c.isAlpha ∨ c = '_' ∨ c = '$') ∧
    ∀ d ∈ cs, d.isAlphanum ∨ d = '_' ∨ d = '$'
  /-- It is not reserved. -/
  unreserved : name ∉ strictWords

theorem isLetter_iff (c : Char) : isLetter c = true ↔ c.isAlphanum ∨ c = '_' ∨ c = '$' := by
  simp [isLetter, or_assoc]

/-- Every reserved word is one that the procedure avoids. -/
theorem isReserved_of_mem_strictWords {word : String} (h : word ∈ strictWords) :
    isReserved word = true := by
  have key : ∀ w ∈ strictWords, isReserved w = true := by decide
  exact key word h

theorem isSpelled_of_isUsable {name : String} (h : isUsable name = true) :
    isSpelled name.toList = true := (Bool.and_eq_true_iff.1 h).1

/-- A usable name may be bound. -/
theorem bindable_of_isUsable {name : String} (h : isUsable name = true) : Bindable name := by
  obtain ⟨hs, hr⟩ := Bool.and_eq_true_iff.1 h
  refine ⟨?_, fun hm => ?_⟩
  · unfold isSpelled at hs
    split at hs
    · cases hs
    · next c cs hc =>
      obtain ⟨hd, hall⟩ := Bool.and_eq_true_iff.1 hs
      rw [hc] at hall
      have hletter := fun d hm => (isLetter_iff d).1 (List.all_eq_true.1 hall d hm)
      refine ⟨c, cs, hc, ?_, fun d hm => hletter d (List.mem_cons_of_mem _ hm)⟩
      have hdigit : c.isDigit = false := by simpa using hd
      rcases hletter c List.mem_cons_self with hc | hc
      · left
        simpa [Char.isAlphanum, hdigit] using hc
      · exact .inr hc
  · rw [isReserved_of_mem_strictWords hm] at hr
    cases hr

/-! ### Free names -/

/-- A suffix keeps a name usable: it adds letters behind, and no reserved word holds a `_`. -/
theorem isUsable_suffixed {name : String} (h : isUsable name = true) (k : Nat) :
    isUsable (suffixed name k) = true := by
  have hs := isSpelled_of_isUsable h
  unfold isSpelled at hs
  split at hs
  · cases hs
  · next c cs hc =>
    obtain ⟨hd, hall⟩ := Bool.and_eq_true_iff.1 hs
    rw [hc] at hall
    have hlist : (suffixed name k).toList = c :: (cs ++ '_' :: Nat.toDigits 10 k) := by
      simp [suffixed, hc]
    have hdigits : ∀ d ∈ Nat.toDigits 10 k, isLetter d = true := by
      intro d hm
      have := Nat.isDigit_of_mem_toDigits (by decide) (by decide) hm
      simp [isLetter, Char.isAlphanum, this]
    have hletters : ∀ d ∈ c :: (cs ++ '_' :: Nat.toDigits 10 k), isLetter d = true := by
      intro d hm
      rw [← List.cons_append] at hm
      rcases List.mem_append.1 hm with hm | hm
      · exact List.all_eq_true.1 hall d hm
      · rcases List.mem_cons.1 hm with rfl | hm
        · decide
        · exact hdigits d hm
    have hreserved : isReserved (suffixed name k) = false := by
      have key : ∀ w ∈ reservedWords, '_' ∉ w.toList := by decide
      refine Bool.eq_false_iff.2 fun hr => ?_
      have hm : suffixed name k ∈ reservedWords := by simpa [isReserved] using hr
      exact key _ hm (by simp [hlist])
    rw [isUsable, hlist, hreserved]
    simp only [isSpelled, hd, Bool.true_and, Bool.not_false, Bool.and_true]
    exact List.all_eq_true.2 hletters

/-- A free name is the name asked for, or that name with a suffix. -/
theorem fresh_cases (used : List String) (name : String) :
    fresh used name = name ∨ ∃ k, fresh used name = suffixed name k := by
  unfold fresh
  split
  · cases hf : (candidates name (used.length + 1)).find? fun s => s ∉ used with
    | none => exact .inl rfl
    | some s =>
      obtain ⟨k, -, rfl⟩ := List.mem_map.1 (List.mem_of_find?_eq_some hf)
      exact .inr ⟨k + 1, rfl⟩
  · exact .inl rfl

theorem isUsable_fresh {name : String} (h : isUsable name = true) (used : List String) :
    isUsable (fresh used name) = true := by
  obtain he | ⟨k, he⟩ := fresh_cases used name
  · rwa [he]
  · rw [he]
    exact isUsable_suffixed h k

theorem isUsable_of_mem_freshAll {used names : List String}
    (h : ∀ name ∈ names, isUsable name = true) {s : String} (hs : s ∈ freshAll used names) :
    isUsable s = true := by
  induction names generalizing used with
  | nil => simp [freshAll] at hs
  | cons name rest ih =>
    rcases List.mem_cons.1 hs with rfl | hs
    · exact isUsable_fresh (h name List.mem_cons_self) used
    · exact ih (fun n hn => h n (List.mem_cons_of_mem _ hn)) hs

theorem not_mem_of_mem_freshAll {used names : List String} {s : String}
    (hs : s ∈ freshAll used names) : s ∉ used := by
  induction names generalizing used with
  | nil => simp [freshAll] at hs
  | cons name rest ih =>
    rcases List.mem_cons.1 hs with rfl | hs
    · exact fresh_not_mem used name
    · exact fun hu => ih hs (List.mem_cons_of_mem _ hu)

/-- Free names differ from each other: each is in use for those behind it. -/
theorem nodup_freshAll (used names : List String) : (freshAll used names).Nodup := by
  induction names generalizing used with
  | nil => exact List.nodup_nil
  | cons name rest ih =>
    exact List.nodup_cons.2 ⟨fun h => not_mem_of_mem_freshAll h List.mem_cons_self, ih _⟩

/-- Free names differ from each other and from those in use. -/
theorem nodup_append_freshAll {used : List String} (h : used.Nodup) (names : List String) :
    (used ++ freshAll used names).Nodup :=
  List.nodup_append.2 ⟨h, nodup_freshAll used names, fun _ ha _ hb e =>
    not_mem_of_mem_freshAll hb (e ▸ ha)⟩

/-! ### Plain names -/

/-- A suffix leaves a `_` in the name. -/
theorem underscore_mem_suffixed (name : String) (k : Nat) : '_' ∈ (suffixed name k).toList := by
  simp [suffixed]

/-- A name without a `_` is only ever given to those who ask for it, and only once. -/
theorem fresh_eq_iff {used : List String} {name wanted : String} (h : '_' ∉ name.toList) :
    fresh used wanted = name ↔ wanted = name ∧ name ∉ used := by
  constructor
  · intro he
    have hfree : name ∉ used := he ▸ fresh_not_mem used wanted
    obtain hw | ⟨k, hw⟩ := fresh_cases used wanted
    · exact ⟨hw.symm.trans he, hfree⟩
    · refine absurd ?_ h
      rw [← he, hw]
      exact underscore_mem_suffixed wanted k
  · rintro ⟨rfl, hfree⟩
    exact if_neg hfree

theorem mem_freshAll_iff {used names : List String} {name : String} (h : '_' ∉ name.toList) :
    name ∈ freshAll used names ↔ name ∉ used ∧ name ∈ names := by
  induction names generalizing used with
  | nil => simp [freshAll]
  | cons wanted rest ih =>
    have hfresh : name = fresh used wanted ↔ name = wanted ∧ name ∉ used := by
      rw [eq_comm, fresh_eq_iff h, eq_comm]
    rw [freshAll, List.mem_cons, ih, List.mem_cons, List.mem_cons, hfresh]
    constructor
    · rintro (⟨hw, hu⟩ | ⟨hu, hr⟩)
      · exact ⟨hu, .inl hw⟩
      · exact ⟨fun hm => hu (.inr hm), .inr hr⟩
    · rintro ⟨hu, hw | hr⟩
      · exact .inl ⟨hw, hu⟩
      · by_cases hw : name = wanted
        · exact .inl ⟨hw, hu⟩
        · exact .inr ⟨fun hm => hm.elim (fun hs => hw hs.1) hu, hr⟩

/-- A usable name without a `_` comes from no other text. -/
theorem sanitize_eq_iff {raw name : String} (hu : isUsable name = true) (h : '_' ∉ name.toList) :
    sanitize raw = name ↔ raw = name := by
  constructor
  · intro he
    have hreplaced : name.toList = raw.toList.map replace := by
      unfold sanitize at he
      dsimp only at he
      split at he
      · rw [← he, String.toList_ofList]
      · rw [← he] at h
        simp at h
    have hkept : ∀ c ∈ raw.toList, replace c = c := by
      intro c hc
      unfold replace
      split
      · rfl
      · next hl =>
        refine absurd ?_ h
        rw [hreplaced]
        exact List.mem_map.2 ⟨c, hc, if_neg hl⟩
    rw [List.map_congr_left hkept, List.map_id'] at hreplaced
    exact String.toList_inj.1 hreplaced.symm
  · rintro rfl
    exact sanitize_of_isUsable hu

end Identifier

/-! ### Identifiers of a manifest -/

namespace Manifest

open Identifier

/-- The identifiers of a manifest are usable, and they differ from each other and from the
names that the module declares itself. -/
theorem identifiers_scan (fs : FileSystem) (role : Role) (root : Path) :
    (∀ e ∈ (scan fs role root).manifest, isUsable e.identifier = true) ∧
      (role.ownNames ++ (scan fs role root).manifest.map Entry.identifier).Nodup := by
  have hown : role.ownNames.Nodup := by cases role <;> decide
  unfold scan
  split
  · let entries := (inOrder (judged fs role root)).filterMap Verdict.entry?
    have hasked : ∀ name ∈ entries.map Entry.identifier, isUsable name = true := by
      intro name hn
      obtain ⟨e, he, rfl⟩ := List.mem_map.1 hn
      obtain ⟨relative, style, s, -, rfl⟩ := entryOf_of_mem_judged he
      exact sanitize_isUsable _
    have hids := map_identifier_withIdentifiers role.ownNames entries
    refine ⟨fun e he => ?_, ?_⟩
    · have hmem : e.identifier ∈ freshAll role.ownNames (entries.map Entry.identifier) := by
        rw [← hids]
        exact List.mem_map_of_mem he
      exact isUsable_of_mem_freshAll hasked hmem
    · show (role.ownNames ++ (withIdentifiers role.ownNames entries).map Entry.identifier).Nodup
      rw [hids]
      exact nodup_append_freshAll hown _
  · exact ⟨by simp, by simpa using hown⟩

end Manifest

end FileRoutes
