import FileRoutes.Script.Category
import FileRoutes.Script.Token
import FileRoutes.Text.Parser

/-!
# Phrases

What was read of a source, lexeme by lexeme, grouped as the grammar says. Comments are gone,
but for those that open as in markup: each is kept as a note where it stands.
-/

namespace FileRoutes.Script

/-- A phrase of a source. -/
inductive Phrase where
  /-- A lexeme, with its characters. -/
  | lexeme (token : Token) (span : Span) (written : List Char)
  /-- A phrase of a category, with all that it is made of. -/
  | group (category : Category) (span : Span) (parts : List Phrase)
  /-- A comment that opens as in markup. -/
  | note (span : Span)
deriving Inhabited

namespace Phrase

/-- Where a phrase stands. -/
def span : Phrase → Span
  | lexeme _ s _ | group _ s _ | note s => s

/-- The span from the start of the first phrase to the end of the last. -/
def spanOf : List Phrase → Span
  | [] => ⟨0, 0⟩
  | first :: others => ⟨first.span.start, ((first :: others).getLast (by simp)).span.stop⟩

end Phrase

end FileRoutes.Script
