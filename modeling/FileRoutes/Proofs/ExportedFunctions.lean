import FileRoutes.Emit.Module
import FileRoutes.Proofs.PropertyNames
import FileRoutes.Script.Exports
import Mathlib.Data.List.Forall2

/-!
# What a module exports

The function that qualifies a module and the object that sets it up are found statement by
statement. Here it is said without any order what a module exports, and what is found is compared
with it.

## The model

* `Statement.Exports` — a statement exports a function under a name, in one of four forms.
* `Imported`, `Statement.Offers` — what an import asks for, and what a statement has for it.
* `Statement.values`, `Module.values` — the variables that are exported, with their values.
* `Statement.unplaced` — a statement without its places.
* `Reordered` — the statements of a module and the variables of a declaration in another order.

## What is proved

* `mem_functionStyles_iff` — the styles that are found in a statement are those it exports in.
* `Statement.Exports.offers` — a function is imported in the style in which it is exported.
* `Reordered.functionStyle?_eq`, `Reordered.config?_eq` — of one function and one object, the order
  does not matter, but to the place that is named where the object has no value.
* `config?_eq_some_iff` — the object is the value of the variable, where there is one at most.

The main statement is `functionStyle_iff_exports`, which puts these together.

## Honest scope

Names are compared as they are spelled.
-/

namespace FileRoutes.Script

open Emit (Import)

/-! ### Functions -/

/-- A statement exports a function under a name, as the default of its module or by this name. -/
inductive Statement.Exports (name : String) : Statement → ExportStyle → Prop where
  /-- `export default function name() { … }`. -/
  | defaultFunction : Exports name (.exportDeclaration true (.function name)) .byDefault
  /-- `export function name() { … }`. -/
  | function : Exports name (.exportDeclaration false (.function name)) .byName
  /-- `export const name = …`, with a function, perhaps in wrappers, as the value. -/
  | bound {bindings : List Binding} {value : Expr} (hmem : ⟨some name, some value⟩ ∈ bindings)
      (hvalue : value.unwrap.isFunction = true) :
      Exports name (.exportDeclaration false (.variables bindings)) .byName
  /-- `export default …`, with a function of this name, in wrappers. -/
  | defaultValue {value : Expr} {span : Span} (hvalue : value.unwrap = .function span (some name)) :
      Exports name (.exportValue value) .byDefault

theorem mem_namedValues_iff {bindings : List Binding} {name : String} {value : Expr} :
    (name, value) ∈ namedValues bindings ↔ ⟨some name, some value⟩ ∈ bindings := by
  rw [namedValues, List.mem_filterMap]
  constructor
  · rintro ⟨⟨target, own⟩, hmem, hb⟩
    dsimp only at hb
    split at hb <;> simp_all
  · exact fun hmem => ⟨_, hmem, rfl⟩

/-- The styles that are found in a statement are those in which it exports the function. -/
theorem mem_functionStyles_iff {name : String} {s : Statement} {style : ExportStyle} :
    style ∈ s.functionStyles name ↔ s.Exports name style := by
  constructor
  · intro h
    unfold Statement.functionStyles at h
    split at h
    · next byDefault own =>
      by_cases hown : own = name
      · rw [if_pos hown, List.mem_singleton] at h
        subst hown h
        cases byDefault
        · exact .function
        · exact .defaultFunction
      · simp [hown] at h
    · next bindings =>
      obtain ⟨⟨own, value⟩, hmem, hstyle⟩ := List.mem_filterMap.1 h
      rw [Option.ite_none_right_eq_some] at hstyle
      obtain ⟨⟨rfl, hvalue⟩, hstyle⟩ := hstyle
      obtain rfl := Option.some.inj hstyle
      exact .bound (mem_namedValues_iff.1 hmem) hvalue
    · next value =>
      split at h
      · next own hvalue =>
        by_cases hown : own = name
        · rw [if_pos hown, List.mem_singleton] at h
          subst hown h
          exact .defaultValue hvalue
        · simp [hown] at h
      · contradiction
    · contradiction
  · rintro (_ | _ | ⟨hmem, hvalue⟩ | hvalue)
    · simp [Statement.functionStyles]
    · simp [Statement.functionStyles]
    · exact List.mem_filterMap.2 ⟨_, mem_namedValues_iff.2 hmem, if_pos ⟨rfl, hvalue⟩⟩
    · simp [Statement.functionStyles, hvalue]

/-- What an import asks a module for. -/
inductive Imported where
  /-- Its default. -/
  | default
  /-- What it exports under a name. -/
  | named (name : String)
deriving DecidableEq

/-- What the import of a function asks for; `own` is the name of the function in its module. -/
def Imported.of (own : String) (i : Import) : Imported :=
  if i.byDefault then .default else .named own

/-- A statement has what an import asks for. -/
inductive Statement.Offers : Statement → Imported → Prop where
  /-- The default, a declared function. -/
  | defaultFunction {own : String} : Offers (.exportDeclaration true (.function own)) .default
  /-- The default, an expression. -/
  | defaultValue {value : Expr} : Offers (.exportValue value) .default
  /-- A declared function, by its name. -/
  | function {own : String} : Offers (.exportDeclaration false (.function own)) (.named own)
  /-- A variable, by its name. -/
  | bound {bindings : List Binding} {own : String} {value : Option Expr}
      (hmem : ⟨some own, value⟩ ∈ bindings) :
      Offers (.exportDeclaration false (.variables bindings)) (.named own)

/-- A function is imported in the style in which it is exported. -/
theorem Statement.Exports.offers {name : String} {s : Statement} {style : ExportStyle}
    (h : s.Exports name style) {i : Import} (hi : i.byDefault = decide (style = .byDefault)) :
    s.Offers (.of name i) := by
  unfold Imported.of
  cases h with
  | defaultFunction =>
    rw [hi]
    exact .defaultFunction
  | function =>
    rw [hi]
    exact .function
  | bound hmem =>
    rw [hi]
    exact .bound hmem
  | defaultValue =>
    rw [hi]
    exact .defaultValue

namespace Module

variable {m : Module} {name : String}

/-- The styles in which the statements of a module export a function, one after the other. -/
def functionStyles (m : Module) (name : String) : List ExportStyle :=
  m.statements.flatMap (Statement.functionStyles name)

/-- The objects that the statements of a module export as `config`, one after the other. -/
def configObjects (m : Module) : List Expr := m.statements.flatMap Statement.configObjects

theorem functionStyle?_isSome_iff : (∃ style, m.functionStyle? name = some style) ↔
    ∃ s ∈ m.statements, ∃ style, s.Exports name style := by
  rw [← Option.isSome_iff_exists, functionStyle?, List.getLast?_isSome]
  constructor
  · intro hne
    obtain ⟨style, hstyle⟩ := List.exists_mem_of_ne_nil _ hne
    obtain ⟨s, hs, hmem⟩ := List.mem_flatMap.1 hstyle
    exact ⟨s, hs, style, mem_functionStyles_iff.1 hmem⟩
  · rintro ⟨s, hs, style, h⟩
    exact List.ne_nil_of_mem (List.mem_flatMap.2 ⟨s, hs, mem_functionStyles_iff.2 h⟩)

/-- The style that is found is one in which a statement exports the function. -/
theorem exists_exports {style : ExportStyle} (h : m.functionStyle? name = some style) :
    ∃ s ∈ m.statements, s.Exports name style := by
  obtain ⟨s, hs, hmem⟩ := List.mem_flatMap.1 (List.mem_of_getLast? h)
  exact ⟨s, hs, mem_functionStyles_iff.1 hmem⟩

end Module

/-! ### The order of statements and variables -/

/-- A variable without its places. -/
def Binding.unplaced (b : Binding) : Binding := ⟨b.target, b.value.map Expr.unplaced⟩

/-- A declaration without its places. -/
def Declaration.unplaced : Declaration → Declaration
  | .variables bindings => .variables (bindings.map Binding.unplaced)
  | d => d

/-- A statement without its places. -/
def Statement.unplaced : Statement → Statement
  | .exportDeclaration byDefault d => .exportDeclaration byDefault d.unplaced
  | .exportValue value => .exportValue value.unplaced
  | .expression value => .expression value.unplaced
  | s => s

/-- Two statements are one, but for the order of the variables that are declared. -/
inductive Statement.Rearranged : Statement → Statement → Prop where
  /-- The statements are equal. -/
  | refl (s : Statement) : Rearranged s s
  /-- They declare the same variables. -/
  | perm {byDefault : Bool} {bindings bindings' : List Binding}
      (h : bindings.Perm bindings') :
      Rearranged (.exportDeclaration byDefault (.variables bindings))
        (.exportDeclaration byDefault (.variables bindings'))

/-- Two modules have the same statements, but for their order, for the order of the variables that
they declare, and for the places. -/
def Module.Reordered (m m' : Module) : Prop :=
  ∃ statements, (m.statements.map Statement.unplaced).Perm statements ∧
    List.Forall₂ Statement.Rearranged statements (m'.statements.map Statement.unplaced)

theorem unwrap_unplaced (e : Expr) : e.unplaced.unwrap = e.unwrap.unplaced := by
  fun_induction Expr.unwrap e with
  | case1 _ inner ih => exact ih
  | case2 e hbare =>
    cases e with
    | wrapped span inner => exact absurd rfl (hbare span inner)
    | _ => rfl

theorem isFunction_unplaced (e : Expr) : e.unplaced.isFunction = e.isFunction := by
  cases e <;> rfl

theorem isObject_unplaced (e : Expr) : e.unplaced.isObject = e.isObject := by
  cases e <;> rfl

theorem namedValues_unplaced (bindings : List Binding) :
    namedValues (bindings.map Binding.unplaced) =
      (namedValues bindings).map fun b => (b.1, b.2.unplaced) := by
  rw [namedValues, List.filterMap_map, namedValues, List.map_filterMap]
  refine List.filterMap_congr fun b _ => ?_
  obtain ⟨_ | target, _ | value⟩ := b <;> rfl

/-- Where a statement stands does not matter to the functions it exports. -/
theorem functionStyles_unplaced (name : String) :
    (s : Statement) → s.unplaced.functionStyles name = s.functionStyles name
  | .exportDeclaration false (.variables bindings) => by
    rw [Statement.unplaced, Declaration.unplaced, Statement.functionStyles, namedValues_unplaced,
      List.filterMap_map, Statement.functionStyles]
    refine List.filterMap_congr fun b _ => ?_
    simp only [Function.comp_apply, unwrap_unplaced, isFunction_unplaced]
  | .exportValue value => by
    rw [Statement.unplaced, Statement.functionStyles, unwrap_unplaced, Statement.functionStyles]
    cases value.unwrap with
    | function _ own => cases own <;> rfl
    | _ => rfl
  | .exportDeclaration true (.variables _) | .exportDeclaration _ (.function _)
  | .exportDeclaration true .other | .exportDeclaration false .other | .exportOther
  | .expression _ | .other => rfl

/-- Where a statement stands matters to the places of the objects it exports only. -/
theorem configObjects_unplaced :
    (s : Statement) → s.unplaced.configObjects = s.configObjects.map Expr.unplaced
  | .exportDeclaration false (.variables bindings) => by
    rw [Statement.unplaced, Declaration.unplaced, Statement.configObjects, namedValues_unplaced,
      List.filterMap_map, Statement.configObjects, List.map_filterMap]
    refine List.filterMap_congr fun b _ => ?_
    simp only [Function.comp_apply, unwrap_unplaced, isObject_unplaced]
    split <;> rfl
  | .exportDeclaration true (.variables _) | .exportDeclaration true (.function _)
  | .exportDeclaration false (.function _) | .exportDeclaration true .other
  | .exportDeclaration false .other | .exportValue _ | .exportOther | .expression _ | .other => rfl

namespace Statement.Rearranged

variable {s s' : Statement}

theorem functionStyles_perm (name : String) :
    s.Rearranged s' → (s.functionStyles name).Perm (s'.functionStyles name)
  | .refl _ => .refl _
  | @perm true _ _ _ => .refl _
  | @perm false _ _ h => (h.filterMap _).filterMap _

theorem configObjects_perm : s.Rearranged s' → s.configObjects.Perm s'.configObjects
  | .refl _ => .refl _
  | @perm true _ _ _ => .refl _
  | @perm false _ _ h => (h.filterMap _).filterMap _

end Statement.Rearranged

/-- What is found statement by statement does not depend on the order, if in each statement it does
not. -/
theorem perm_flatMap_of_reordered {α : Type} {f : Statement → List α}
    (hf : ∀ {s s' : Statement}, s.Rearranged s' → (f s).Perm (f s'))
    {ss ss' mid : List Statement} (hperm : ss.Perm mid)
    (hmid : List.Forall₂ Statement.Rearranged mid ss') : (ss.flatMap f).Perm (ss'.flatMap f) := by
  refine (hperm.flatMap_right f).trans ?_
  clear hperm
  induction hmid with
  | nil => rfl
  | cons hs _ ih => exact (hf hs).append ih

/-- Of one thing at most there is only one order. -/
theorem eq_of_perm_of_length_le_one {α : Type} {xs ys : List α} (h : xs.Perm ys)
    (hlength : xs.length ≤ 1) : ys = xs := by
  match xs, hlength with
  | [], _ => exact List.nil_perm.1 h
  | [x], _ => exact List.singleton_perm.1 h |>.symm

namespace Module.Reordered

variable {m m' : Module} (h : m.Reordered m')
include h

/-- The functions that a module exports do not depend on its order. -/
theorem functionStyles_perm (name : String) :
    (m.functionStyles name).Perm (m'.functionStyles name) := by
  obtain ⟨mid, hperm, hmid⟩ := h
  have hstyles := perm_flatMap_of_reordered (fun hs => hs.functionStyles_perm name) hperm hmid
  simp only [List.flatMap_map, functionStyles_unplaced] at hstyles
  exact hstyles

/-- The objects that a module exports do not depend on its order, but for their places. -/
theorem configObjects_perm :
    (m.configObjects.map Expr.unplaced).Perm (m'.configObjects.map Expr.unplaced) := by
  obtain ⟨mid, hperm, hmid⟩ := h
  have hobjects := perm_flatMap_of_reordered (fun hs => hs.configObjects_perm) hperm hmid
  simp only [List.flatMap_map, configObjects_unplaced, ← List.map_flatMap] at hobjects
  exact hobjects

/-- One function at most is found in the same style in every order. -/
theorem functionStyle?_eq {name : String} (hone : (m.functionStyles name).length ≤ 1) :
    m'.functionStyle? name = m.functionStyle? name :=
  congrArg List.getLast? (eq_of_perm_of_length_le_one (h.functionStyles_perm name) hone)

/-- One object at most has the same value in every order, or the same fault but for its place. -/
theorem config?_eq (hone : m.configObjects.length ≤ 1) :
    m'.config?.map unplacedResult = m.config?.map unplacedResult := by
  have hobjects : m'.configObjects.map Expr.unplaced = m.configObjects.map Expr.unplaced :=
    eq_of_perm_of_length_le_one h.configObjects_perm (by rwa [List.length_map])
  have hresult : ∀ m : Module, m.config?.map unplacedResult =
      (m.configObjects.map Expr.unplaced).getLast?.map evaluate := by
    intro m
    rw [config?, List.getLast?_map, Option.map_map, Option.map_map]
    refine congrArg (fun f => Option.map f _) (funext fun e => ?_)
    exact (evaluate_unplaced_eq e).symm
  rw [hresult, hresult, hobjects]

end Module.Reordered

/-! ### The object and the variable -/

/-- The variables that a statement exports, with their values. -/
def Statement.values : Statement → List (String × Expr)
  | .exportDeclaration false (.variables bindings) => namedValues bindings
  | _ => []

/-- The object of a variable, if it is called `config` and has an object as its value. -/
def configObjectOf? (b : String × Expr) : Option Expr :=
  if b.1 = "config" ∧ b.2.unwrap.isObject = true then some b.2.unwrap else none

theorem Statement.configObjects_eq :
    (s : Statement) → s.configObjects = s.values.filterMap configObjectOf?
  | .exportDeclaration false (.variables _) | .exportDeclaration true (.variables _)
  | .exportDeclaration true (.function _) | .exportDeclaration false (.function _)
  | .exportDeclaration true .other | .exportDeclaration false .other | .exportValue _
  | .exportOther | .expression _ | .other => rfl

namespace Module

variable {m : Module}

/-- The variables that a module exports, with their values. -/
def values (m : Module) : List (String × Expr) := m.statements.flatMap Statement.values

theorem binding?_eq (m : Module) (name : String) :
    m.binding? name = (m.values.find? fun b => b.1 = name).map Prod.snd := rfl

theorem configObjects_eq_filterMap (m : Module) :
    m.configObjects = m.values.filterMap configObjectOf? := by
  rw [configObjects, values, List.filterMap_flatMap]
  exact congrArg (List.flatMap · _) (funext Statement.configObjects_eq)

/-- Of one variable at most, the object that is found is the value of the variable without its
wrappers. -/
theorem config?_eq_some_iff (hone : (m.values.filter fun b => b.1 = "config").length ≤ 1)
    (r : Except EvalError Value) :
    m.config? = some r ↔ ∃ value, m.binding? "config" = some value ∧
      value.unwrap.isObject = true ∧ evaluate value.unwrap = r := by
  have hobjects : m.configObjects =
      (m.values.filter fun b => b.1 = "config").filterMap configObjectOf? := by
    rw [configObjects_eq_filterMap, List.filterMap_filter]
    refine List.filterMap_congr fun b _ => ?_
    by_cases hb : b.1 = "config" <;> simp [configObjectOf?, hb]
  have hconfig : m.config? = m.configObjects.getLast?.map evaluate := rfl
  rw [hconfig, hobjects, binding?_eq, ← List.head?_filter]
  generalize hvs : m.values.filter (fun b => b.1 = "config") = vs at hone
  match vs, hone with
  | [], _ => simp
  | [b], _ =>
    have hb : b.1 = "config" := by
      have hmem : b ∈ m.values.filter fun b => b.1 = "config" := hvs ▸ List.mem_singleton_self b
      simpa using (List.mem_filter.1 hmem).2
    by_cases hobject : b.2.unwrap.isObject = true
    · simp [configObjectOf?, hb, hobject]
    · simp [configObjectOf?, hb, hobject]

end Module

/-! ### The main statement -/

/-- A function is found exactly if a statement exports one under the name, and the style that is
found is one in which a statement exports it, so that there is what an import in this style asks
for. Of one function and one object at most, the same is found in every order of the statements and
the variables, up to the place of a fault. Of one variable `config` at most, there is a config
exactly if the value of the first one is an object in wrappers, and it is what this object is
evaluated to. -/
theorem functionStyle_iff_exports (m : Module) (name : String) :
    ((∃ style, m.functionStyle? name = some style) ↔
      ∃ s ∈ m.statements, ∃ style, s.Exports name style) ∧
    (∀ style, m.functionStyle? name = some style →
      ∃ s ∈ m.statements, s.Exports name style ∧
        ∀ i : Import, i.byDefault = decide (style = .byDefault) → s.Offers (.of name i)) ∧
    (∀ m' : Module, m.Reordered m' →
      ((m.functionStyles name).length ≤ 1 → m'.functionStyle? name = m.functionStyle? name) ∧
      (m.configObjects.length ≤ 1 →
        m'.config?.map unplacedResult = m.config?.map unplacedResult)) ∧
    ((m.values.filter fun b => b.1 = "config").length ≤ 1 →
      ∀ r, m.config? = some r ↔ ∃ value, m.binding? "config" = some value ∧
        value.unwrap.isObject = true ∧ evaluate value.unwrap = r) := by
  refine ⟨Module.functionStyle?_isSome_iff, ?_, ?_, Module.config?_eq_some_iff⟩
  · intro style hstyle
    obtain ⟨s, hs, hexports⟩ := Module.exists_exports hstyle
    exact ⟨s, hs, hexports, fun i hi => hexports.offers hi⟩
  · exact fun m' hm => ⟨hm.functionStyle?_eq, hm.config?_eq⟩

/-- An exported config with one member, at an offset. -/
def configStatement (value : Span → Expr) (offset : Nat) : Statement :=
  .exportDeclaration false (.variables [⟨some "config", some (.object ⟨offset, offset + 8⟩
    (.pair (.name "a") (value ⟨offset + 4, offset + 7⟩) .nil))⟩])

/-- The config before its handler, and behind it. -/
theorem reordered_config (value : Span → Expr) (s : Statement) (offset offset' : Nat)
    (h : (value ⟨offset + 4, offset + 7⟩).unplaced = (value ⟨offset' + 4, offset' + 7⟩).unplaced) :
    Module.Reordered ⟨[configStatement value offset, s]⟩ ⟨[s, configStatement value offset']⟩ := by
  have hconfig : (configStatement value offset).unplaced =
      (configStatement value offset').unplaced := by
    simp [configStatement, Statement.unplaced, Declaration.unplaced, Binding.unplaced,
      Expr.unplaced, Members.unplaced, h]
  refine ⟨[s.unplaced, (configStatement value offset').unplaced], ?_,
    .cons (.refl _) (.cons (.refl _) .nil)⟩
  rw [List.map_cons, List.map_cons, hconfig]
  exact .swap _ _ _

/-- A handler that is the default of its module, with a config before it or behind it. -/
theorem functionStyle_iff_exports_sample :
    let config := configStatement (.text · [.plain ['x']])
    let handler : Statement := .exportDeclaration true (.function "handler")
    (∃ s ∈ [config 22, handler], s.Offers (.of "handler" ⟨"users", "./users", true⟩)) ∧
    Module.functionStyle? ⟨[handler, config 58]⟩ "handler" = some .byDefault ∧
    Module.config? ⟨[config 22, handler]⟩ = some (.ok (.object [("a", .text "x")])) ∧
    (Module.config? ⟨[handler, config 58]⟩).map unplacedResult =
      some (.ok (.object [("a", .text "x")])) := by
  intro config handler
  obtain ⟨-, hstyle, horder, hconfig⟩ :=
    functionStyle_iff_exports ⟨[config 22, handler]⟩ "handler"
  obtain ⟨hfunction, hobject⟩ :=
    horder _ (reordered_config (.text · [.plain ['x']]) handler 22 58 rfl)
  obtain ⟨s, hs, -, hoffers⟩ := hstyle .byDefault rfl
  have hvalue := (hconfig (by decide) (.ok (.object [("a", .text "x")]))).2 ⟨_, rfl, rfl, rfl⟩
  refine ⟨⟨s, hs, hoffers _ rfl⟩, hfunction (by decide), hvalue, ?_⟩
  rw [hobject (by decide), hvalue]
  rfl

/-- A function whose name is spelled with an escape is not found, though the language knows it under
the name. In another order, the config may have a fault at another place. -/
theorem functionStyle_iff_exports_astray :
    (Key.Names "handler" (.name "h\\u0061ndler") ∧
      Module.functionStyle? ⟨[.exportDeclaration false (.function "h\\u0061ndler")]⟩ "handler" =
        none) ∧
    ∃ m m' : Module, m.Reordered m' ∧ (m.functionStyles "handler").length = 1 ∧
      m.configObjects.length = 1 ∧ m.config? = some (.error (.unsupported ⟨26, 29⟩)) ∧
      m'.config? = some (.error (.unsupported ⟨54, 57⟩)) := by
  have hname : Key.Names "handler" (.name "h\\u0061ndler") := by
    refine ⟨by decide, [.plain 'h', .unit "0061".toList, .plain 'n', .plain 'd', .plain 'l',
      .plain 'e', .plain 'r'], ?_, rfl, rfl⟩
    simp [Piece.InWord, Piece.Denotes, Piece.number?, isHexDigit, IsSurrogate, Decimal.valueOf,
      Decimal.digitValue?]
  exact ⟨⟨hname, by decide⟩, _, _,
    reordered_config .other (.exportDeclaration false (.function "handler")) 22 50 rfl,
    rfl, rfl, rfl, rfl⟩

end FileRoutes.Script
