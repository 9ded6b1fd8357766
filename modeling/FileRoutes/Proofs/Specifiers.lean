import FileRoutes.Path.Specifier
import FileRoutes.Proofs.Landing

/-!
# Where import specifiers lead

A specifier is written for a module and read from the directory that holds the module. For
absolute paths the way that it spells ends exactly at the file it was made for, however the
two paths are written, and it starts with a dot, so that it is never taken for the name of a
package.

## The model

* `LeadsTo` — what is asked of a specifier in a module, said of locations and of normal forms.

## What is proved

* `follow_wayBetween` — the way between two normal forms leads from one to the other.
* `leadsTo_specifier` — the specifier made for a directory leads to its target from every
  module in that directory.
-/

namespace FileRoutes.Path

open FileSystem (saysNothing startOf)

/-- The text of a specifier shows that it is a way: it climbs or starts right here. -/
def IsWay (specifier : String) : Prop :=
  specifier = ".." ∨ "./".toList <+: specifier.toList ∨ "../".toList <+: specifier.toList

/-- In the module at `place`, the specifier stands for the file at `target`. -/
structure LeadsTo (place : Path) (specifier : String) (target : Path) : Prop where
  /-- It starts with a dot and is no name of a package. -/
  isWay : IsWay specifier
  /-- From the directory that holds the module, its pieces lead to the file. -/
  lands : follow (landing [] place).dropLast (segments ⟨specifier⟩) = landing [] target
  /-- Joined to the directory of the module, it has the normal form of the file. -/
  normal : normalize (place.directory.join ⟨specifier⟩) = normalize target

/-! ### The way between two locations -/

theorem mem_follow {here : Location} {ps : List String} {s : String} (h : s ∈ follow here ps) :
    s ∈ here ∨ s ∈ ps ∧ GoesDown s := by
  induction ps generalizing here with
  | nil => exact .inl h
  | cons p ps ih =>
    have hrest : ∀ {l : Location}, s ∈ follow l ps → s ∈ l ∨ s ∈ p :: ps ∧ GoesDown s := fun h =>
      (ih h).imp_right (.imp_left (List.mem_cons_of_mem _))
    obtain hs | rfl | hdown := piece_cases p
    · rw [follow_cons_nothing _ _ hs] at h
      exact hrest h
    · rw [follow_cons_up] at h
      exact (hrest h).imp_left fun h => List.dropLast_subset _ h
    · rw [follow_cons_down _ _ hdown] at h
      obtain h | h := hrest h
      · obtain h | h := List.mem_append.1 h
        · exact .inl h
        · rw [List.mem_singleton.1 h]
          exact .inr ⟨List.mem_cons_self, hdown⟩
      · exact .inr h

/-- Where a path leads from the root, every name is one of its pieces and goes down. -/
theorem mem_landing {p : Path} {s : String} (h : s ∈ landing [] p) :
    s ∈ p.segments ∧ GoesDown s := by
  have hstart : startOf p.text [] = [] := by simp [startOf]
  rw [landing, hstart] at h
  exact (mem_follow h).resolve_left List.not_mem_nil

/-- The way between two absolute normal forms, by their names. -/
theorem wayBetween_root (as bs : Location) :
    ∃ n, as.take n = bs.take n ∧
      wayBetween (.root :: as.map .name) (.root :: bs.map .name) =
        List.replicate (as.length - n) ".." ++ bs.drop n := by
  refine ⟨commonLength (as.map .name) (bs.map .name), ?_, ?_⟩
  · apply (List.map_inj_right fun _ _ h => Component.name.inj h).1
    simpa [List.map_take] using take_commonLength (as.map Component.name) (bs.map .name)
  · have ht : Component.text ∘ Component.name = id := rfl
    simp [wayBetween, commonLength, ← List.map_drop, ht]

/-- The way between two locations leads from one to the other. -/
theorem follow_wayBetween (as : Location) {bs : Location} (h : ∀ s ∈ bs, GoesDown s) :
    follow as (wayBetween (.root :: as.map .name) (.root :: bs.map .name)) = bs := by
  obtain ⟨n, hn, hway⟩ := wayBetween_root as bs
  rw [hway, follow_append, follow_replicate_up,
    follow_goesDown fun s hs => h s (List.mem_of_mem_drop hs)]
  rcases Nat.le_total n as.length with hle | hle
  · rw [Nat.sub_sub_self hle, hn, List.take_append_drop]
  · have has : as = bs.take n := by rw [← hn, List.take_of_length_le hle]
    rw [Nat.sub_eq_zero_of_le hle, Nat.sub_zero, List.take_length, has, List.take_append_drop]

theorem not_mem_wayBetween {as bs : Location} (h : ∀ s ∈ bs, '/' ∉ s.toList) :
    ∀ s ∈ wayBetween (.root :: as.map .name) (.root :: bs.map .name), '/' ∉ s.toList := by
  obtain ⟨n, -, hway⟩ := wayBetween_root as bs
  intro s hs
  rw [hway] at hs
  rcases List.mem_append.1 hs with hs | hs
  · rw [List.eq_of_mem_replicate hs]
    decide
  · exact h s (List.mem_of_mem_drop hs)

/-! ### The text of a way -/

theorem isWay_markRelative (way : String) : IsWay (markRelative way) := by
  unfold markRelative
  split
  · next h =>
    rcases Bool.or_eq_true_iff.1 h with h | h
    · exact .inr (.inr (String.startsWith_string_iff.1 h))
    · exact .inl (by simpa using h)
  · exact .inr (.inl (by simp))

theorem follow_markRelative (here : Location) (way : String) :
    follow here (Text.split '/' (markRelative way)) = follow here (Text.split '/' way) := by
  unfold markRelative
  split
  · rfl
  · have hdot : Text.split '/' "." = ["."] := by decide
    rw [show "./" ++ way = "." ++ "/" ++ way by rfl, Text.split_append, hdot, follow_append]
    rfl

theorem follow_join {ps : List String} (h : ∀ p ∈ ps, '/' ∉ p.toList) (here : Location) :
    follow here (Text.split '/' (Text.join "/" ps)) = follow here ps := by
  by_cases hne : ps = []
  · subst hne
    rfl
  · rw [Text.split_join hne h]

theorem IsWay.not_isAbsolute {specifier : String} (h : IsWay specifier) :
    isAbsolute ⟨specifier⟩ = false := by
  rcases h with rfl | ⟨cs, h⟩ | ⟨cs, h⟩
  · decide
  · simp [isAbsolute, ← h]
  · simp [isAbsolute, ← h]

theorem IsWay.ne_empty {specifier : String} (h : IsWay specifier) : specifier ≠ "" := by
  rintro rfl
  rcases h with h | ⟨cs, h⟩ | ⟨cs, h⟩ <;> simp at h

/-- A specifier is never empty, unless no relative text exists. -/
theorem specifier_ne_empty {source target : Path}
    (h : target.isAbsolute = true → source.isAbsolute = true) : specifier source target ≠ "" := by
  rw [specifier, if_neg (by cases ht : target.isAbsolute <;> simp_all)]
  exact (isWay_markRelative _).ne_empty

/-- Between absolute paths a specifier is the marked way between their normal forms. -/
theorem specifier_of_isAbsolute {source target : Path} (hs : source.isAbsolute = true)
    (ht : target.isAbsolute = true) :
    specifier source target = markRelative (Text.join "/"
      (wayBetween (.root :: (landing [] source).map .name)
        (.root :: (landing [] target).map .name))) := by
  rw [specifier, if_neg (by simp [hs]), resolved_eq_landing hs [], resolved_eq_landing ht []]

/-! ### Specifiers -/

/-- From where a directory leads, the specifier made for it leads to its target. -/
theorem follow_specifier {source target : Path} (hs : source.isAbsolute = true)
    (ht : target.isAbsolute = true) :
    follow (landing [] source) (segments ⟨specifier source target⟩) = landing [] target := by
  rw [segments, specifier_of_isAbsolute hs ht, follow_markRelative, follow_join,
    follow_wayBetween]
  · exact fun s hs => (mem_landing hs).2
  · exact not_mem_wayBetween fun s hs => not_mem_of_mem_segments (mem_landing hs).1

/-- The specifier made for a directory leads to its target from every module in it. -/
theorem leadsTo_specifier {place source target : Path} {name : String}
    (hd : place.directory.isAbsolute = true) (hs : source.isAbsolute = true)
    (ht : target.isAbsolute = true) (hplace : landing [] place = landing [] source ++ [name])
    (hdir : landing [] place.directory = landing [] source) :
    LeadsTo place (specifier source target) target := by
  have hway : IsWay (specifier source target) := by
    rw [specifier_of_isAbsolute hs ht]
    exact isWay_markRelative _
  refine ⟨hway, ?_, normalize_eq_of_landing (isAbsolute_join hd _) ht ?_⟩
  · rw [hplace, List.dropLast_concat, follow_specifier hs ht]
  · rw [landing_join hway.not_isAbsolute, hdir, follow_specifier hs ht]

end FileRoutes.Path
