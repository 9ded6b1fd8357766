import FileRoutes.Script.Grammar.Modules

/-!
# Elements

Elements in angle brackets, as expressions. A name between the brackets may have hyphens,
points or a colon, and an element without a name is allowed too.
-/

namespace FileRoutes.Script

open Token Category Body

namespace Grammar

/-- A name between angle brackets. -/
def tagName : Body := oneOf [dashedName, name]

/-- The attributes of an element. -/
def attributes : Body := many (oneOf [tagAttribute, elementHole])

/-- The inside of the tag that opens an element, its name and attributes. -/
def tagHead (d : Dialect) : Body :=
  if d.types then
    chain
      [ oneOf [tagName, namespacedName, chain [oneOf [name, dottedName], maybe typeArguments]],
        attributes ]
  else chain [oneOf [tagName, dottedName, namespacedName], attributes]

/-- The forms of elements. -/
def elementForms (d : Dialect) : Category → List Form
  | element =>
    [chain [openingTag, many (oneOf [elementText, reference, element, emptyElement, elementHole]),
      closingTag]]
  | elementHole =>
    [chain [openBrace, maybe (oneOf [expression, sequence, spread]), closeBrace]]
  | openingTag =>
    [.weighing (-1) (chain [less, maybe (tagHead d), greater])]
  | dottedName => [.bound .member (chain [oneOf [name, dottedName], dot, name])]
  | namespacedName => [chain [tagName, colon, tagName]]
  | closingTag =>
    [chain [lessSlash, maybe (oneOf [tagName, dottedName, namespacedName]), greater]]
  | emptyElement =>
    if d.types then
      [.weighing (-1) (chain [less, maybe (tagHead d), slashGreater])]
    else [chain [less, tagHead d, slashGreater]]
  | tagAttribute =>
    [chain [oneOf [tagName, namespacedName],
      maybe (chain [equals, oneOf [attributeText, elementHole, element, emptyElement]])]]
  | _ => []

end Grammar

end FileRoutes.Script
