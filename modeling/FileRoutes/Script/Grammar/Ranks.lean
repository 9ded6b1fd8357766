import FileRoutes.Script.Form
import FileRoutes.Script.Language

/-!
# Orders of binding

The orders in which forms are compared that could be taken in two ways, those that bind
more strongly first. An order says nothing about forms that have no place in it.
-/

namespace FileRoutes.Script

namespace Grammar

open Rank

/-- The orders among the forms of plain scripts. -/
def plainOrders : List (List Rank) :=
  [ [level .member, level .templateCall, level .call, category .increment, level .leading,
      level .power, level .times, level .plus, level .shift, level .relation, level .equality,
      level .bitAnd, level .bitXor, level .bitOr, level .logicalAnd, level .logicalOr,
      level .conditional, category .sequence, category .arrow],
    [level .assign, category .primary],
    [level .member, level .templateCall, level .creation, level .call, category .expression],
    [level .declaration, level .literal],
    [category .primary, category .block, level .object],
    [category .metaProperty, category .importOperand],
    [category .importStatement, category .importOperand],
    [category .exportStatement, category .primary],
    [category .letDeclaration, category .primary] ]

/-- The orders that types add. -/
def typedOrders : List (List Rank) :=
  [ [level .call, level .instantiation, level .claim, level .ascription, category .awaiting,
      category .arrow],
    [level .extension, level .instantiation],
    [category .intersectionType, category .unionType, category .conditionalType,
      category .functionType, level .ascription, category .typePredicate, category .readonlyType],
    [category .mappedClause, category .primary],
    [category .accessModifier, category .primary],
    [level .leading, category .expression],
    [category .extendsClause, category .primary],
    [level .claim, level .assign],
    [level .declaration, category .expression],
    [category .predefinedType, category .unary],
    [category .type, category .maybeType],
    [category .tupleType, category .arrayType, category .pattern, category .type],
    [category .readonlyType, category .pattern],
    [category .readonlyType, category .primary],
    [category .typeQuery, category .subscript, category .expression],
    [category .typeQuery, category .querySubscript],
    [category .dottedTypeName, category .genericType, category .primaryType, category .lookupType,
      category .keyType, category .type],
    [category .asExpression, category .satisfiesExpression, category .primaryType],
    [category .queryMember, category .member],
    [category .queryMember, category .primary],
    [category .querySubscript, category .subscript],
    [category .querySubscript, category .primary],
    [category .queryCall, category .primary],
    [category .queryInstantiation, category .primary],
    [category .typeQuery, category .primary],
    [category .overrideModifier, category .primary],
    [category .decoratorCall, category .decorator],
    [category .literalType, category .pattern],
    [category .predefinedType, category .pattern],
    [category .call, category .queryCall],
    [category .call, category .importedCall],
    [category .creation, category .primary],
    [category .metaProperty, category .primary],
    [category .constructSignature, category .propertyName] ]

end Grammar

/-- The orders in which the forms of a dialect are compared. -/
def Dialect.orders (d : Dialect) : List (List Rank) :=
  if d.types then Grammar.plainOrders ++ Grammar.typedOrders else Grammar.plainOrders

end FileRoutes.Script
