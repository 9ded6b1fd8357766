/-!
# Splitting a text at a separator

A text is cut at every occurrence of one character, so that a text with `n`
separators has `n + 1` pieces, some of them possibly empty. `joinWith` puts the
pieces together again. Paths, slugs and generated lines are all built from these
two operations.

## What is proved

* `joinWith_pieces` — joining the pieces of a text gives the text.
* `not_mem_of_mem_pieces` — no piece holds the separator.
* `pieces_joinWith` — pieces without the separator are read back.
-/

namespace FileRoutes.Text

/-- The pieces of `cs` between the occurrences of `sep`. -/
def pieces (sep : Char) : List Char → List (List Char)
  | [] => [[]]
  | c :: cs =>
    if c = sep then [] :: pieces sep cs
    else match pieces sep cs with
      | [] => [[c]]
      | p :: ps => (c :: p) :: ps

/-- The texts of `ps`, one separator between neighbours. -/
def joinWith (sep : Char) : List (List Char) → List Char
  | [] => []
  | [p] => p
  | p :: q :: ps => p ++ sep :: joinWith sep (q :: ps)

theorem pieces_ne_nil (sep : Char) (cs : List Char) : pieces sep cs ≠ [] := by
  cases cs with
  | nil => simp [pieces]
  | cons c cs =>
    simp only [pieces]
    split
    · simp
    · split <;> simp

theorem joinWith_cons_of_ne_nil (sep : Char) (p : List Char) {ps : List (List Char)}
    (h : ps ≠ []) : joinWith sep (p :: ps) = p ++ sep :: joinWith sep ps := by
  cases ps with
  | nil => exact absurd rfl h
  | cons q qs => rfl

/-- Cutting a text and joining the pieces gives the text back. -/
theorem joinWith_pieces (sep : Char) (cs : List Char) : joinWith sep (pieces sep cs) = cs := by
  induction cs with
  | nil => rfl
  | cons c cs ih =>
    simp only [pieces]
    split
    · next h => rw [joinWith_cons_of_ne_nil _ _ (pieces_ne_nil sep cs), ih, h]; rfl
    · split
      · next h => exact absurd h (pieces_ne_nil sep cs)
      · next p ps h =>
        rw [h] at ih
        cases ps with
        | nil => simp only [joinWith] at ih ⊢; rw [ih]
        | cons q qs => simp only [joinWith, List.cons_append] at ih ⊢; rw [ih]

/-- No piece holds the separator. -/
theorem not_mem_of_mem_pieces {sep : Char} {cs p : List Char} (h : p ∈ pieces sep cs) :
    sep ∉ p := by
  induction cs generalizing p with
  | nil => simp [pieces] at h; simp [h]
  | cons c cs ih =>
    simp only [pieces] at h
    split at h
    · rcases List.mem_cons.1 h with rfl | h
      · simp
      · exact ih h
    · next hc =>
      split at h
      · next h' => exact absurd h' (pieces_ne_nil sep cs)
      · next q qs hq =>
        rcases List.mem_cons.1 h with rfl | h
        · intro hm
          rcases List.mem_cons.1 hm with rfl | hm
          · exact hc rfl
          · exact ih (hq ▸ List.mem_cons_self) hm
        · exact ih (hq ▸ List.mem_cons_of_mem _ h)

theorem pieces_of_not_mem {sep : Char} {p : List Char} (h : sep ∉ p) : pieces sep p = [p] := by
  induction p with
  | nil => rfl
  | cons c p ih =>
    simp only [List.mem_cons, not_or] at h
    simp only [pieces, Ne.symm h.1, if_false, ih h.2]

theorem pieces_append {sep : Char} {p : List Char} (h : sep ∉ p) (cs : List Char) :
    pieces sep (p ++ sep :: cs) = p :: pieces sep cs := by
  induction p with
  | nil => simp [pieces]
  | cons c p ih =>
    simp only [List.mem_cons, not_or] at h
    simp only [List.cons_append, pieces, Ne.symm h.1, if_false, ih h.2]

/-- Pieces that do not hold the separator are read back from their joined text. -/
theorem pieces_joinWith {sep : Char} {ps : List (List Char)} (hne : ps ≠ [])
    (h : ∀ p ∈ ps, sep ∉ p) : pieces sep (joinWith sep ps) = ps := by
  induction ps with
  | nil => exact absurd rfl hne
  | cons p ps ih =>
    cases ps with
    | nil => exact pieces_of_not_mem (h p List.mem_cons_self)
    | cons q qs =>
      rw [joinWith, pieces_append (h p List.mem_cons_self),
        ih (by simp) fun r hr => h r (List.mem_cons_of_mem _ hr)]

/-- Whether `needle` occurs somewhere in a text. -/
def holds : List Char → List Char → Bool
  | [], needle => needle.isEmpty
  | c :: cs, needle => needle.isPrefixOf (c :: cs) || holds cs needle

/-- The pieces of a string. -/
def split (sep : Char) (s : String) : List String :=
  (pieces sep s.toList).map String.ofList

/-- The strings of `ps` with `sep` between neighbours. -/
def join (sep : String) : List String → String
  | [] => ""
  | [p] => p
  | p :: q :: ps => p ++ sep ++ join sep (q :: ps)

end FileRoutes.Text
