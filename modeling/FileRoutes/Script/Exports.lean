import FileRoutes.Script.Literal

/-!
# What a module exports

A handler file qualifies by the function it exports under a given name, and may set itself
up by an exported object called `config`. Only the top level of a module counts: what is
exported again from elsewhere, or under another name, does not qualify a file.

## The model

* `ExportStyle` — how a function is exported, and so how it is imported.
* `Module.functionStyle?`, `Module.config?` — the exported function and the exported
  object; of several the last one counts.
* `Module.binding?`, `Module.defaultValue?`, `Module.assignedExports?` — the three places
  where the config of a whole project may stand; of several the first one counts.
-/

namespace FileRoutes.Script

/-- How a function is exported. -/
inductive ExportStyle where
  /-- As the default of its module. -/
  | byDefault
  /-- Under its own name. -/
  | byName
deriving DecidableEq, Inhabited

/-- Whether an expression is a function. -/
def Expr.isFunction : Expr → Bool
  | function _ _ => true
  | _ => false

/-- Whether an expression is an object. -/
def Expr.isObject : Expr → Bool
  | object _ _ => true
  | _ => false

/-- The variables of a list that are bare names with an initial value. -/
def namedValues (bindings : List Binding) : List (String × Expr) :=
  bindings.filterMap fun b =>
    match b.target, b.value with
    | some name, some value => some (name, value)
    | _, _ => none

/-- The styles in which a statement exports a function under a name, in order. -/
def Statement.functionStyles (name : String) : Statement → List ExportStyle
  | exportDeclaration byDefault (.function own) =>
    if own = name then [if byDefault then .byDefault else .byName] else []
  | exportDeclaration false (.variables bindings) =>
    (namedValues bindings).filterMap fun (own, value) =>
      if own = name ∧ value.unwrap.isFunction then some .byName else none
  | exportValue value =>
    match value.unwrap with
    | .function _ (some own) => if own = name then [.byDefault] else []
    | _ => []
  | _ => []

/-- The objects that a statement exports as `config`, in order. -/
def Statement.configObjects : Statement → List Expr
  | exportDeclaration false (.variables bindings) =>
    (namedValues bindings).filterMap fun (own, value) =>
      let value := value.unwrap
      if own = "config" ∧ value.isObject then some value else none
  | _ => []

namespace Module

/-- How a module exports a function under a name, if it does. -/
def functionStyle? (m : Module) (name : String) : Option ExportStyle :=
  (m.statements.flatMap (Statement.functionStyles name)).getLast?

/-- The object a module exports as `config`, if it does. -/
def configObject? (m : Module) : Option Expr :=
  (m.statements.flatMap Statement.configObjects).getLast?

/-- What the object a module exports as `config` denotes. -/
def config? (m : Module) : Option (Except EvalError Value) := m.configObject?.map evaluate

/-- The initial value of the first variable exported under a name. -/
def binding? (m : Module) (name : String) : Option Expr :=
  let exported := m.statements.flatMap fun
    | .exportDeclaration false (.variables bindings) => namedValues bindings
    | _ => []
  (exported.find? fun b => b.1 = name).map Prod.snd

/-- The first expression a module exports as its default. -/
def defaultValue? (m : Module) : Option Expr :=
  m.statements.findSome? fun
    | .exportValue value => some value
    | _ => none

/-- The first value assigned to `module.exports` by a statement of its own. -/
def assignedExports? (m : Module) : Option Expr :=
  m.statements.findSome? fun
    | .expression (.assignment _ target value) =>
      if target.toList.filter (fun c => !Text.isBlank c) = "module.exports".toList then some value
      else none
    | _ => none

end Module

end FileRoutes.Script
