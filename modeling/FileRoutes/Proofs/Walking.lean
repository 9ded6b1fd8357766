import FileRoutes.Proofs.Landing

/-!
# One piece at a time

A path is followed piece by piece. What a piece comes to depends on its text and, where it is a
name, on what bears the name. This module says so once, with one equation for each case: whatever
is proved of whole paths goes by these cases and does not open the procedure.

## What is proved

* `step_cases` — a piece says nothing, goes up, or is a name, which may be too long.
* `walk_nothing`, `walk_up`, `walk_of_long` — what the first three of them come to.
* `walk_of_none`, `walk_of_directory`, `walk_of_file` — what a name comes to, by what bears it.
* `walk_link_itself`, `walk_link`, `walk_link_zero` — what a link comes to.
* `walk_cons_cases` — how a piece can be followed at all.
-/

namespace FileRoutes.FileSystem

open FileRoutes.Path (GoesDown)

theorem step_cases (piece : String) : saysNothing piece = true ∨ piece = ".." ∨
    (GoesDown piece ∧ greatestName < piece.utf8ByteSize) ∨
    (GoesDown piece ∧ ¬ greatestName < piece.utf8ByteSize) := by
  obtain hs | hu | hdown := Path.piece_cases piece
  · exact .inl hs
  · exact .inr (.inl hu)
  · by_cases hlong : greatestName < piece.utf8ByteSize
    · exact .inr (.inr (.inl ⟨hdown, hlong⟩))
    · exact .inr (.inr (.inr ⟨hdown, hlong⟩))

variable {fs : FileSystem} {last : Bool} {n : Nat} {l : Location} {piece : String}
  {rest : List String}

/-! ### Pieces that are no names -/

theorem walk_nil : fs.walk last n l [] = .ok (.found l) := by rw [walk]

theorem walk_nothing (hs : saysNothing piece = true) :
    fs.walk last n l (piece :: rest) = fs.walk last n l rest := by
  rw [walk, if_pos hs]

/-- A slash behind everything leads nowhere else. -/
theorem walk_slash : fs.walk last n l [""] = .ok (.found l) := by
  rw [walk_nothing (by decide), walk_nil]

theorem walk_up : fs.walk last n l (".." :: rest) = fs.walk last n l.dropLast rest := by
  rw [walk, if_neg (by decide), if_pos rfl]

theorem walk_of_long (down : GoesDown piece) (long : greatestName < piece.utf8ByteSize) :
    fs.walk last n l (piece :: rest) = .error .nameTooLong := by
  rw [walk, if_neg (by simp [down.1]), if_neg down.2, if_pos long]

/-! ### Names -/

section names

variable (down : GoesDown piece) (short : ¬ greatestName < piece.utf8ByteSize)
include down short

/-- A name that is free can only be the end. -/
theorem walk_of_none (entry : fs.entry? (l ++ [piece]) = none) :
    fs.walk last n l (piece :: rest) =
      if rest = [] then .ok (.free (l ++ [piece])) else .error .notFound := by
  rw [walk, if_neg (by simp [down.1]), if_neg down.2, if_neg short]
  dsimp only
  rw [entry]

theorem walk_of_directory (entry : fs.entry? (l ++ [piece]) = some .directory) :
    fs.walk last n l (piece :: rest) = fs.walk last n (l ++ [piece]) rest := by
  rw [walk, if_neg (by simp [down.1]), if_neg down.2, if_neg short]
  dsimp only
  rw [entry]

/-- A file can only be the end. -/
theorem walk_of_file {content : Content} (entry : fs.entry? (l ++ [piece]) = some (.file content)) :
    fs.walk last n l (piece :: rest) =
      if rest = [] then .ok (.found (l ++ [piece])) else .error .notDirectory := by
  rw [walk, if_neg (by simp [down.1]), if_neg down.2, if_neg short]
  dsimp only
  rw [entry]

/-- A link that is the end can be taken for itself. -/
theorem walk_link_itself {target : String}
    (entry : fs.entry? (l ++ [piece]) = some (.link target)) :
    fs.walk false n l [piece] = .ok (.found (l ++ [piece])) := by
  rw [walk, if_neg (by simp [down.1]), if_neg down.2, if_neg short]
  dsimp only
  rw [entry]
  exact if_pos ⟨rfl, rfl⟩

section followed

variable {target : String} (entry : fs.entry? (l ++ [piece]) = some (.link target))
  (hend : ¬ (rest = [] ∧ last = false))
include entry hend

/-- Otherwise its target is followed in its place. -/
theorem walk_link : fs.walk last (n + 1) l (piece :: rest) =
    fs.walk last n (startOf target l) (Text.split '/' target ++ rest) := by
  rw [walk, if_neg (by simp [down.1]), if_neg down.2, if_neg short]
  dsimp only
  rw [entry]
  exact if_neg (by simpa using hend)

theorem walk_link_zero : fs.walk last 0 l (piece :: rest) = .error .tooManyLinks := by
  rw [walk, if_neg (by simp [down.1]), if_neg down.2, if_neg short]
  dsimp only
  rw [entry]
  exact if_neg (by simpa using hend)

end followed

end names

/-! ### How a piece can be followed -/

/-- A piece is followed by one of the rules, or it is the last one and no directory. -/
theorem walk_cons_cases {place : Place} (h : fs.walk last n l (piece :: rest) = .ok place) :
    (saysNothing piece = true ∧ fs.walk last n l rest = .ok place) ∨
    (piece = ".." ∧ fs.walk last n l.dropLast rest = .ok place) ∨
    (GoesDown piece ∧ ¬ greatestName < piece.utf8ByteSize ∧
      ((fs.entry? (l ++ [piece]) = some .directory ∧
          fs.walk last n (l ++ [piece]) rest = .ok place) ∨
        (∃ k target, n = k + 1 ∧ fs.entry? (l ++ [piece]) = some (.link target) ∧
          ¬ (rest = [] ∧ last = false) ∧
          fs.walk last k (startOf target l) (Text.split '/' target ++ rest) = .ok place) ∨
        (rest = [] ∧ fs.entry? (l ++ [piece]) ≠ some .directory ∧
          place.location = l ++ [piece] ∧
          ∀ target, fs.entry? (l ++ [piece]) = some (.link target) → last = false))) := by
  obtain hs | rfl | ⟨down, long⟩ | ⟨down, short⟩ := step_cases piece
  · exact .inl ⟨hs, (walk_nothing hs).symm.trans h⟩
  · exact .inr (.inl ⟨rfl, walk_up.symm.trans h⟩)
  · rw [walk_of_long down long] at h
    cases h
  · refine .inr (.inr ⟨down, short, ?_⟩)
    cases entry : fs.entry? (l ++ [piece]) with
    | none =>
      rw [walk_of_none down short entry] at h
      split at h
      · next hrest => cases h; exact .inr (.inr ⟨hrest, by simp, rfl, by simp⟩)
      · cases h
    | some e =>
      cases e with
      | directory => exact .inl ⟨rfl, (walk_of_directory down short entry).symm.trans h⟩
      | file content =>
        rw [walk_of_file down short entry] at h
        split at h
        · next hrest => cases h; exact .inr (.inr ⟨hrest, by simp, rfl, by simp⟩)
        · cases h
      | link target =>
        by_cases hend : rest = [] ∧ last = false
        · obtain ⟨rfl, rfl⟩ := hend
          rw [walk_link_itself down short entry] at h
          cases h
          exact .inr (.inr ⟨rfl, by simp, rfl, fun _ _ => rfl⟩)
        · cases n with
          | zero =>
            rw [walk_link_zero down short entry hend] at h
            cases h
          | succ k =>
            exact .inr (.inl
              ⟨k, target, rfl, rfl, hend, (walk_link down short entry hend).symm.trans h⟩)

end FileRoutes.FileSystem
