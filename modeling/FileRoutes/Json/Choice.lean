import FileRoutes.Http.Method
import FileRoutes.Json.Shaped

/-!
# Choices in JSON

One of several named values is given by its name, or by an object whose only member has
that name and the value null.
-/

namespace FileRoutes.Json

/-- What a message calls the name of a choice. -/
def expectedChoice : String := "variant identifier"

/-- What a message calls the value behind the name of a choice. -/
def expectedUnit : String := "unit"

namespace Reader

variable {α : Type}

/-- The choice with a name that is given as a text. -/
def chosenName (choices : List (String × α)) : Reader α := do
  let c ← tokenOfValue
  placed do
    let name ← if c = '"' then quotedText else unexpected expectedChoice
    match choices.find? fun choice => choice.1 = name with
    | some choice => return choice.2
    | none => failShape (.unknownVariant name (choices.map Prod.fst))

/-- The value null. -/
def null : Reader Unit := do
  let c ← tokenOfValue
  if c = 'n' then
    skip
    restOfWord "ull".toList
  else placed (unexpected expectedUnit)

/-- A choice, by its name or by an object with one member. -/
def choice (choices : List (String × α)) : Reader α := do
  match ← peekToken with
  | none => failAhead .endBeforeValue
  | some '"' => chosenName choices
  | some '\x7b' =>
    skip
    let a ← chosenName choices
    colon
    null
    match ← peekToken with
    | none => failHere .endInObject
    | some '\x7d' =>
      skip
      return a
    | some _ => failHere .noValue
  | some _ => failAhead .noValue

end Reader

/-- The method that a JSON text chooses. -/
def method (s : String) : Except Error Http.Method :=
  Reader.run (Reader.choice (Http.Method.all.map fun m => (m.verb, m))) s

end FileRoutes.Json
