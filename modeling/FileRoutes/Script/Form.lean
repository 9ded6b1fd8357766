import FileRoutes.Script.Body

/-!
# Forms and how they bind

A category has several forms, each with a body. Where one row of symbols could be taken in
two ways, the forms at odds are compared: by their strengths, by the places of their levels
and categories in an order of ranks, and last by the side to which the form leans. What
none of these decides is read both ways, and if both succeed the weights decide.

## The model

* `Level`, `Strength` — how strongly a form binds.
* `Side` — whether a form prefers to end or to go on.
* `Manner`, `Form` — a form of a category and how it is chosen.
* `Rank`, `Contender`, `Contender.compare` — who binds more strongly under some orders.
-/

namespace FileRoutes.Script

/-- A level of binding. -/
inductive Level where
  /-- Members of a value. -/
  | member
  /-- Templates behind a value. -/
  | templateCall
  /-- Calls. -/
  | call
  /-- `new`. -/
  | creation
  /-- Operators before their operand. -/
  | leading
  /-- Powers. -/
  | power
  /-- Products. -/
  | times
  /-- Sums. -/
  | plus
  /-- Shifts. -/
  | shift
  /-- Comparisons by size or kind. -/
  | relation
  /-- Comparisons by value. -/
  | equality
  /-- `&`. -/
  | bitAnd
  /-- `^`. -/
  | bitXor
  /-- `|`. -/
  | bitOr
  /-- `&&`. -/
  | logicalAnd
  /-- `||`. -/
  | logicalOr
  /-- Conditional expressions. -/
  | conditional
  /-- Assignments. -/
  | assign
  /-- Declarations. -/
  | declaration
  /-- Functions and classes as expressions. -/
  | literal
  /-- Objects and patterns for them. -/
  | object
  /-- Types for the parameters of a value. -/
  | instantiation
  /-- Claims about the type of an operand. -/
  | claim
  /-- Types behind an operand. -/
  | ascription
  /-- Classes that are extended. -/
  | extension
deriving DecidableEq, Inhabited

/-- How strongly a form binds. -/
inductive Strength where
  /-- As strongly as most. -/
  | ordinary
  /-- As its level says. -/
  | level (l : Level)
  /-- Less strongly than those that are ordinary. -/
  | low
  /-- More strongly than those that are ordinary. -/
  | high
deriving DecidableEq, Inhabited

/-- What a form prefers that could end here or go on. -/
inductive Side where
  /-- It ends here. -/
  | left
  /-- It goes on. -/
  | right
deriving DecidableEq, Inhabited

/-- How a form is chosen among others. -/
structure Manner where
  /-- How strongly it binds. -/
  strength : Strength
  /-- The side to which it leans, if it does. -/
  side : Option Side
  /-- What it counts for or against a reading. -/
  weight : Int
deriving DecidableEq, Inhabited

/-- A form of a category. -/
structure Form where
  /-- What it is made of. -/
  body : Body
  /-- How it is chosen. -/
  manner : Manner
deriving DecidableEq, Inhabited

namespace Form

/-- A form without any preference. -/
def ofBody (b : Body) : Form := ⟨b, ⟨.ordinary, none, 0⟩⟩

/-- A form that counts for or against a reading. -/
def weighing (w : Int) (b : Body) : Form := ⟨b, ⟨.ordinary, none, w⟩⟩

/-- A form that binds as its level says. -/
def bound (l : Level) (b : Body) : Form := ⟨b, ⟨.level l, none, 0⟩⟩

/-- A form that leans to the left. -/
def leftward (s : Strength) (b : Body) : Form := ⟨b, ⟨s, some .left, 0⟩⟩

/-- A form that leans to the right. -/
def rightward (s : Strength) (b : Body) : Form := ⟨b, ⟨s, some .right, 0⟩⟩

instance : Coe Body Form := ⟨ofBody⟩

end Form

/-! ### Ranks -/

/-- A place in an order of binding. -/
inductive Rank where
  /-- Forms with a level. -/
  | level (l : Level)
  /-- Forms of a category. -/
  | category (c : Category)
deriving DecidableEq, Inhabited

/-- A party to a conflict: the strength of a form, and the categories it stands for. -/
structure Contender where
  /-- How strongly it binds. -/
  strength : Strength
  /-- The categories it stands for. -/
  categories : List Category
deriving DecidableEq, Inhabited

/-- Whether a place in an order is that of a contender. -/
def Rank.isOf (c : Contender) : Rank → Bool
  | level l => c.strength = .level l
  | category k => c.categories.contains k

namespace Contender

/-- Which of two contenders comes first in an order, once both were met. -/
def compareIn (a b : Contender) : List Rank → (metA metB : Bool) → Ordering
  | [], _, _ => .eq
  | r :: order, metA, metB =>
    if r.isOf a then if metB then .lt else compareIn a b order true metB
    else if r.isOf b then if metA then .gt else compareIn a b order metA true
    else compareIn a b order metA metB

/-- Which of two contenders binds more strongly: the greater one. A strength beyond the
ordinary decides where the other has none or one of the same kind; else the first order
that holds both. -/
def compare (orders : List (List Rank)) (a b : Contender) : Ordering :=
  match a.strength, b.strength with
  | .high, .high | .low, .low => .eq
  | .high, .ordinary | .high, .low | .ordinary, .low => .gt
  | .ordinary, .high | .low, .high | .low, .ordinary => .lt
  | _, _ =>
    ((orders.map fun order => compareIn a b order false false).find? fun o => o != .eq).getD .eq

end Contender

end FileRoutes.Script
