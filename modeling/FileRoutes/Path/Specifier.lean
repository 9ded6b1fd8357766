import FileRoutes.Path.Normal

/-!
# Import specifiers

A generated module imports another module by a text that leads from the directory of the
first to the file of the second. The text is computed from the two paths alone: both are
brought to lexical normal form, what they have in common is dropped, the rest of the
directory is climbed with `..` and the rest of the file is descended into.

## The model

* `commonLength` — how many components two paths start with in common.
* `specifier` — the text. It starts with `./` or `../`, so that it is never taken for the
  name of a package. When only the target is absolute no relative text exists, and the
  absolute one is given.
-/

namespace FileRoutes.Path

/-- The number of components that two lists start with in common. -/
def commonLength : List Component → List Component → Nat
  | a :: as, b :: bs => if a = b then commonLength as bs + 1 else 0
  | _, _ => 0

/-- The pieces of the way from the directory `source` to `target`, both in normal form. -/
def wayBetween (source target : List Component) : List String :=
  let common := commonLength source target
  List.replicate (source.length - common) ".." ++ (target.drop common).map Component.text

/-- A way whose first step is not up is marked with a leading `./`. -/
def markRelative (way : String) : String :=
  if way.startsWith "../" || way == ".." then way else "./" ++ way

/-- The text of an absolute path in normal form, the root being an empty first piece. -/
def absoluteText (cs : List Component) : String :=
  Text.join "/" (cs.map fun c => if c = .root then "" else c.text)

/-- The specifier under which a module in the directory `source` imports `target`. -/
def specifier (source target : Path) : String :=
  if target.isAbsolute && !source.isAbsolute then absoluteText (resolved target.components)
  else
    markRelative
      (Text.join "/" (wayBetween (resolved source.components) (resolved target.components)))

theorem take_commonLength (as bs : List Component) :
    as.take (commonLength as bs) = bs.take (commonLength as bs) := by
  induction as generalizing bs with
  | nil => simp [commonLength]
  | cons a as ih =>
    cases bs with
    | nil => simp [commonLength]
    | cons b bs =>
      simp only [commonLength]
      split
      · next h => simp [h, ih bs]
      · simp

end FileRoutes.Path
