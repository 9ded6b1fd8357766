/-!
# Identifiers of generated modules

Every imported function needs a name in the generated module. A name is usable when it is
spelled with ASCII letters, digits, `_` and `$`, does not start with a digit and is no
word that module code reserves. `sanitize` turns any text into a usable name.

## What is proved

* `sanitize_isUsable` — the result is always usable.
* `sanitize_of_isUsable` — a usable name is kept.
-/

namespace FileRoutes.Identifier

/-- The characters a name is spelled with. -/
def isLetter (c : Char) : Bool := c.isAlphanum || c == '_' || c == '$'

/-- The words that strict module code does not let anyone bind. -/
def reservedWords : List String :=
  ["arguments", "await", "break", "case", "catch", "class", "const", "continue", "debugger",
    "default", "delete", "do", "else", "enum", "eval", "export", "extends", "false", "finally",
    "for", "function", "if", "implements", "import", "in", "instanceof", "interface", "let",
    "new", "null", "package", "private", "protected", "public", "return", "static", "super",
    "switch", "this", "throw", "true", "try", "typeof", "undefined", "var", "void", "while",
    "with", "yield"]

/-- Whether `word` is reserved. -/
def isReserved (word : String) : Bool := reservedWords.contains word

/-- Whether the text is spelled like a name: not empty, no digit in front, letters only. -/
def isSpelled (cs : List Char) : Bool :=
  match cs with
  | [] => false
  | c :: _ => !c.isDigit && cs.all isLetter

/-- Whether a module may bind the name. -/
def isUsable (name : String) : Bool := isSpelled name.toList && !isReserved name

/-- The character itself, or `_` in its place. -/
def replace (c : Char) : Char := if isLetter c then c else '_'

/-- The name for a text: characters no name is spelled with become `_`, and a `_` goes in
front of what would be empty, start with a digit or be reserved. -/
def sanitize (raw : String) : String :=
  let cs := raw.toList.map replace
  if isSpelled cs && !isReserved (String.ofList cs) then String.ofList cs
  else String.ofList ('_' :: cs)

theorem isLetter_replace (c : Char) : isLetter (replace c) = true := by
  unfold replace
  split
  · assumption
  · decide

theorem all_isLetter_map_replace (cs : List Char) : (cs.map replace).all isLetter = true := by
  simp [isLetter_replace]

/-- No reserved word starts with `_`. -/
theorem isReserved_underscore (cs : List Char) :
    isReserved (String.ofList ('_' :: cs)) = false := by
  have key : ∀ w ∈ reservedWords, w.toList.head? ≠ some '_' := by decide
  refine Bool.eq_false_iff.2 fun h => ?_
  have h' : String.ofList ('_' :: cs) ∈ reservedWords := by
    simpa [isReserved] using h
  exact key _ h' (by simp)

theorem map_replace_of_all {cs : List Char} (h : cs.all isLetter = true) :
    cs.map replace = cs := by
  induction cs with
  | nil => rfl
  | cons c cs ih =>
    simp only [List.all_cons, Bool.and_eq_true] at h
    simp [replace, h.1, ih h.2]

/-- Whatever the text, its name is usable. -/
theorem sanitize_isUsable (raw : String) : isUsable (sanitize raw) = true := by
  unfold sanitize
  dsimp only
  split
  · next h => simpa [isUsable] using h
  · rw [isUsable, isReserved_underscore]
    have : isLetter '_' = true := by decide
    simp [isSpelled, this, isLetter_replace]

/-- A usable name is its own name. -/
theorem sanitize_of_isUsable {name : String} (h : isUsable name = true) :
    sanitize name = name := by
  simp only [isUsable, Bool.and_eq_true] at h
  have hall : name.toList.all isLetter = true := by
    have := h.1
    unfold isSpelled at this
    split at this
    · simp at this
    · simp only [Bool.and_eq_true] at this; exact this.2
  unfold sanitize
  simp only [map_replace_of_all hall, String.ofList_toList]
  simp [h.1, h.2]

end FileRoutes.Identifier
