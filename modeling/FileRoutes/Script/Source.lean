import FileRoutes.Script.Extract
import FileRoutes.Script.Parse.Run

/-!
# Reading a source

A source is read in the dialects of its language, one after the other, until one of them
accepts it.

## The model

* `Module.parse?` — the module a source is in a dialect, or nothing.
* `Language.parse?` — the module it is in the first dialect of a language that accepts it.
-/

namespace FileRoutes.Script

/-- The module a source is in a dialect. -/
def Module.parse? (d : Dialect) (source : String) : Option Module :=
  (Phrase.ofSource? d source.toList).map (Phrase.toModule source.toList)

/-- What is said about a source that is no module of its language. -/
def syntaxError : String := "<syntax error>"

/-- The module a source is in a language: that of the first dialect that accepts it. -/
def Language.parse? (l : Language) (source : String) : Option Module :=
  l.dialects.findSome? fun d => Module.parse? d source

end FileRoutes.Script
