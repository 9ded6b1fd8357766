/-!
# Blank characters

Two notions of white space occur in what the generator reads. `isBlank` is the Unicode
property `White_Space`, by which a text is trimmed. `isSpace` is the short ASCII list by
which line breaks are looked for.
-/

namespace FileRoutes.Text

/-- The Unicode property `White_Space`. -/
def isBlank (c : Char) : Bool :=
  let n := c.toNat
  (0x09 ≤ n && n ≤ 0x0D) || n == 0x20 || n == 0x85 || n == 0xA0 || n == 0x1680 ||
    (0x2000 ≤ n && n ≤ 0x200A) || n == 0x2028 || n == 0x2029 || n == 0x202F || n == 0x205F ||
    n == 0x3000

/-- Space, tabulator, line feed, vertical tabulator, form feed and carriage return. -/
def isSpace (c : Char) : Bool :=
  let n := c.toNat
  (0x09 ≤ n && n ≤ 0x0D) || n == 0x20

/-- The text without blanks at either end. -/
def trim (s : String) : String :=
  String.ofList ((s.toList.dropWhile isBlank).reverse.dropWhile isBlank).reverse

/-- The text with the ASCII capitals in lower case. -/
def lower (s : String) : String := String.ofList (s.toList.map Char.toLower)

/-- The text with the ASCII small letters in upper case. -/
def upper (s : String) : String := String.ofList (s.toList.map Char.toUpper)

theorem isBlank_of_isSpace {c : Char} (h : isSpace c = true) : isBlank c = true := by
  simp only [isSpace, isBlank, Bool.or_eq_true, Bool.and_eq_true] at h ⊢
  rcases h with h | h <;> simp [h]

end FileRoutes.Text
