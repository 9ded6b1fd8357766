import FileRoutes.Decimal.Binary64

/-!
# Values

What a literal denotes: the data that a config is made of, whichever format it is written
in. The members of an object are kept in the order of their names, each name once.

## The model

* `Value` — null, booleans, integers, floating-point numbers, texts, arrays and objects.
* `Value.insert` — a member put at its place; a member of the same name is replaced.
* `Value.member?` — the value of a member.
-/

namespace FileRoutes

/-- A value made of data alone. -/
inductive Value where
  /-- The missing value. -/
  | null
  /-- A truth value. -/
  | boolean (value : Bool)
  /-- An integer. -/
  | int (value : Int)
  /-- A number that is no integer, or too large to be sure of. -/
  | float (value : Binary64)
  /-- A text. -/
  | text (value : String)
  /-- A list of values. -/
  | array (items : List Value)
  /-- Named values, in the order of their names. -/
  | object (members : List (String × Value))
deriving Inhabited

namespace Value

/-- Puts a member at its place in an ordered list; one of the same name is replaced. -/
def insert {α : Type} (key : String) (value : α) : List (String × α) → List (String × α)
  | [] => [(key, value)]
  | (k, v) :: rest =>
    if key = k then (key, value) :: rest
    else if key < k then (key, value) :: (k, v) :: rest
    else (k, v) :: insert key value rest

/-- The value of the member with a name. -/
def member? (key : String) (members : List (String × Value)) : Option Value :=
  (members.find? fun m => m.1 = key).map Prod.snd

end Value

end FileRoutes
