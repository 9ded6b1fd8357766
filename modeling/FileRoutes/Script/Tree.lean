import FileRoutes.Text.Parser

/-!
# Syntax trees

What is kept of a module once it is read. A handler is found by the exported functions, a
config by the value of a literal, so the tree knows literals, functions, assignments and
the exporting statements exactly; of everything else it knows where it stands.

## The model

* `TextPart` — a piece of a string or template: plain characters, an escape, a hole.
* `Expr`, `Members`, `Elements` — expressions, the members of an object and the elements
  of an array. The two lists are types of their own so that functions on trees recurse on
  the tree alone.
* `Binding`, `Declaration`, `Statement`, `Module` — the top level of a module.

## Honest scope

Comments are gone, but for one kind: a comment that opens as in markup is counted among
the members and elements it stands between, as an expression of unknown kind.
-/

namespace FileRoutes.Script

/-- A piece of a string or of a template. -/
inductive TextPart where
  /-- Characters that stand for themselves. -/
  | plain (written : List Char)
  /-- An escape sequence; `body` is what follows the backslash. -/
  | escape (body : List Char)
  /-- An expression between `${` and a closing brace. -/
  | hole (span : Span)
deriving DecidableEq, Inhabited

/-- The operator in front of an operand. -/
inductive Sign where
  /-- `+`. -/
  | plus
  /-- `-`. -/
  | minus
  /-- Any other operator written in front. -/
  | other
deriving DecidableEq, Inhabited

/-- The name of an object's member. -/
inductive Key where
  /-- A bare word. -/
  | name (written : String)
  /-- A number, as it is written. -/
  | number (written : String)
  /-- A string. -/
  | text (parts : List TextPart)
  /-- A computed or private name. -/
  | other (span : Span)
deriving DecidableEq, Inhabited

mutual

/-- An expression and where it stands. -/
inductive Expr where
  /-- `{ … }`. -/
  | object (span : Span) (members : Members)
  /-- `[ … ]`. -/
  | array (span : Span) (elements : Elements)
  /-- A string or template. -/
  | text (span : Span) (parts : List TextPart)
  /-- A number, as it is written. -/
  | number (span : Span) (written : String)
  /-- `true` or `false`. -/
  | boolean (span : Span) (value : Bool)
  /-- `null`. -/
  | null (span : Span)
  /-- `undefined`. -/
  | undefined (span : Span)
  /-- An operator in front of an operand. -/
  | unary (span : Span) (sign : Sign) (operand : Expr)
  /-- A named member of a value, `a.b` or `a?.b`. -/
  | member (span : Span) (object : Expr) (property : String)
  /-- A bare name. -/
  | name (span : Span) (written : String)
  /-- Parentheses, `as T`, `satisfies T` or `!` around an expression. -/
  | wrapped (span : Span) (inner : Expr)
  /-- A function with its own name, if it has one; arrows have none. -/
  | function (span : Span) (own : Option String)
  /-- `target = value`, the target as it is written. -/
  | assignment (span : Span) (target : String) (value : Expr)
  /-- Any other expression. -/
  | other (span : Span)

/-- The members of an object, in order. -/
inductive Members where
  /-- No more members. -/
  | nil
  /-- `key: value`. -/
  | pair (key : Key) (value : Expr) (rest : Members)
  /-- A member of another kind. -/
  | other (span : Span) (rest : Members)

/-- The positions of an array, in order. -/
inductive Elements where
  /-- No more positions. -/
  | nil
  /-- A position without an element. -/
  | hole (rest : Elements)
  /-- A position with an element. -/
  | item (element : Expr) (rest : Elements)

end

deriving instance Inhabited for Expr, Members, Elements

namespace Expr

/-- Where an expression stands. -/
def span : Expr → Span
  | object s _ | array s _ | text s _ | number s _ | boolean s _ | null s | undefined s
  | unary s _ _ | member s _ _ | name s _ | wrapped s _ | function s _ | assignment s _ _
  | other s => s

/-- The expression inside all wrappers. -/
def unwrap : Expr → Expr
  | wrapped _ inner => inner.unwrap
  | e => e

end Expr

/-- A declared variable. -/
structure Binding where
  /-- The name, if the target is a bare name. -/
  target : Option String
  /-- The initial value, if there is one. -/
  value : Option Expr
deriving Inhabited

/-- A declaration. -/
inductive Declaration where
  /-- A function with a body. -/
  | function (name : String)
  /-- Variables. -/
  | variables (bindings : List Binding)
  /-- A class, a type, a signature or something else that is neither. -/
  | other
deriving Inhabited

/-- A statement of a module. -/
inductive Statement where
  /-- `export` before a declaration, with or without `default`. -/
  | exportDeclaration (byDefault : Bool) (declaration : Declaration)
  /-- `export default` before an expression. -/
  | exportValue (value : Expr)
  /-- Any other statement that starts with `export`. -/
  | exportOther
  /-- An expression. -/
  | expression (value : Expr)
  /-- Any other statement. -/
  | other
deriving Inhabited

/-- A module: its top-level statements in order. -/
structure Module where
  /-- The statements. -/
  statements : List Statement
deriving Inhabited

end FileRoutes.Script
