import FileRoutes.Script.Phrase
import FileRoutes.Script.Quoted

/-!
# What is kept of a phrase

A module that was read is reduced to the tree that the rest of the library works on. Only
what may hold a handler or a config is looked into; of all else the place is kept.

## The model

* `Phrase.toExpr` — the expression that a phrase is.
* `Phrase.toStatement`, `Phrase.toModule` — statements, and the module as a whole.
-/

namespace FileRoutes.Script

namespace Phrase

/-- The parts of a text that is written with its quotes. -/
def textParts : List Char → List TextPart
  | [] => []
  | quote :: rest => ((quotedParts? quote (rest.length + 1) rest).map Prod.fst).getD []

/-- The parts of a template. -/
def templateParts (parts : List Phrase) : List TextPart :=
  parts.filterMap fun
    | lexeme .templateText _ written => some (.plain written)
    | lexeme .escape _ written => some (.escape (written.drop 1))
    | group .substitution span _ => some (.hole span)
    | _ => none

/-- The expression that a single lexeme is. -/
def lexemeExpr (token : Token) (span : Span) (written : List Char) : Expr :=
  match token with
  | .text => .text span (textParts written)
  | .number => .number span (String.ofList written)
  | .trueWord => .boolean span true
  | .falseWord => .boolean span false
  | .nullWord => .null span
  | .undefinedWord => .undefined span
  | .thisWord | .superWord => .other span
  | _ => .name span (String.ofList written)

/-- The first name among some phrases. -/
def firstName? (parts : List Phrase) : Option String :=
  parts.findSome? fun
    | lexeme .name _ written => some (String.ofList written)
    | _ => none

/-- The operator in front of an operand. -/
def signOf : List Phrase → Sign
  | lexeme .plus _ _ :: _ => .plus
  | lexeme .minus _ _ :: _ => .minus
  | _ => .other

/-- The property at the end of a member, if it is a plain name. -/
def property? (parts : List Phrase) : Option String :=
  match parts.getLast? with
  | some (lexeme .name _ written) => some (String.ofList written)
  | _ => none

/-- The name of a member of an object. -/
def keyOf : List Phrase → Key
  | group .propertyName _ (lexeme token span written :: _) :: _ =>
    match token with
    | .number => .number (String.ofList written)
    | .text => .text (textParts written)
    | .privateName => .other span
    | _ => .name (String.ofList written)
  | group _ span _ :: _ | lexeme _ span _ :: _ | note span :: _ => .other span
  | [] => .other ⟨0, 0⟩

/-- The target of an assignment: the phrase before the mark, as it is written. -/
def targetOf (source : List Char) : List Phrase → String
  | [] => ""
  | p :: lexeme .equals _ _ :: _ => String.ofList (p.span.slice source)
  | _ :: parts => targetOf source parts

mutual

/-- The expression that a phrase is. -/
def toExpr (source : List Char) : Phrase → Expr
  | lexeme token span written => lexemeExpr token span written
  | note span => .other span
  | group category span parts =>
    match category with
    | .expression | .primary => firstExpr source span parts
    | .parenthesized | .asExpression | .satisfiesExpression | .nonNull =>
      .wrapped span (innerExpr source span parts)
    | .object => .object span (membersOf source parts)
    | .array => .array span (elementsOf source true parts)
    | .template => .text span (templateParts parts)
    | .unary => .unary span (signOf parts) (lastExpr source span parts)
    | .member =>
      match property? parts with
      | some property => .member span (firstExpr source span parts) property
      | none => .other span
    | .functionExpression | .generatorExpression => .function span (firstName? parts)
    | .arrow => .function span none
    | .assignment => .assignment span (targetOf source parts) (lastExpr source span parts)
    | _ => .other span

/-- The first phrase as an expression. -/
def firstExpr (source : List Char) (whole : Span) : List Phrase → Expr
  | [] => .other whole
  | p :: _ => p.toExpr source

/-- The first phrase that is no lexeme, as an expression. -/
def innerExpr (source : List Char) (whole : Span) : List Phrase → Expr
  | [] => .other whole
  | lexeme _ _ _ :: parts => innerExpr source whole parts
  | p :: _ => p.toExpr source

/-- The last phrase as an expression. -/
def lastExpr (source : List Char) (whole : Span) : List Phrase → Expr
  | [] => .other whole
  | [p] => p.toExpr source
  | _ :: parts => lastExpr source whole parts

/-- The members of an object. -/
def membersOf (source : List Char) : List Phrase → Members
  | [] => .nil
  | lexeme token span _ :: parts =>
    match token with
    | .openBrace | .comma | .closeBrace => membersOf source parts
    | _ => .other span (membersOf source parts)
  | note span :: parts => .other span (membersOf source parts)
  | group category span inner :: parts =>
    match category with
    | .pair => .pair (keyOf inner) (lastExpr source span inner) (membersOf source parts)
    | _ => .other span (membersOf source parts)

/-- The elements of an array; `vacant` says that the position is still without one. -/
def elementsOf (source : List Char) : (vacant : Bool) → List Phrase → Elements
  | _, [] => .nil
  | vacant, lexeme token _ _ :: parts =>
    match token, vacant with
    | .comma, true => .hole (elementsOf source true parts)
    | _, _ => elementsOf source true parts
  | vacant, note span :: parts => .item (.other span) (elementsOf source vacant parts)
  | _, p :: parts => .item (p.toExpr source) (elementsOf source false parts)

end

/-- The variable that a phrase of a declaration is. -/
def binding? (source : List Char) : Phrase → Option Binding
  | group .binding _ parts =>
    let target := match parts with
      | lexeme .name _ written :: _ => some (String.ofList written)
      | _ => none
    let value := parts.findSome? fun
      | group .initializer span inner => some (lastExpr source span inner)
      | _ => none
    some ⟨target, value⟩
  | _ => none

/-- The declaration that a phrase is. -/
def toDeclaration (source : List Char) : Phrase → Declaration
  | group .declaration _ (group category _ parts :: _) =>
    match category with
    | .functionDeclaration | .generatorDeclaration => .function ((firstName? parts).getD "")
    | .letDeclaration | .varDeclaration => .variables (parts.filterMap (binding? source))
    | _ => .other
  | _ => .other

/-- Whether a phrase is the word `default`. -/
def isDefault : Phrase → Bool
  | lexeme .defaultWord _ _ => true
  | _ => false

/-- The statement that an `export` is. -/
def exportOf (source : List Char) (parts : List Phrase) : Statement :=
  let byDefault := parts.any isDefault
  let declaration? := parts.find? fun
    | group .declaration _ _ => true
    | _ => false
  let value? := parts.find? fun
    | group .expression _ _ => true
    | _ => false
  match declaration?, value? with
  | some declaration, _ => .exportDeclaration byDefault (declaration.toDeclaration source)
  | none, some value => if byDefault then .exportValue (value.toExpr source) else .exportOther
  | none, none => .exportOther

/-- The statement that a phrase is. -/
def toStatement (source : List Char) : Phrase → Statement
  | group .statement _ (group .exportStatement _ parts :: _) => exportOf source parts
  | group .statement _ (group .expressionStatement span parts :: _) =>
    .expression (firstExpr source span parts)
  | _ => .other

/-- The module that a phrase is. -/
def toModule (source : List Char) : Phrase → Module
  | group .program _ parts => ⟨parts.map (toStatement source)⟩
  | _ => ⟨[]⟩

end Phrase

end FileRoutes.Script
