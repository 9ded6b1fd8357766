import FileRoutes.Script.Grammar.Statements

/-!
# Expressions

What an expression is made of, from the words, literals and parentheses that bind most
strongly to the operators; objects and arrays, and the patterns that are written like them.
An object or an array that may still turn out to be a pattern is read as both.
-/

namespace FileRoutes.Script

open Token Category Body

namespace Grammar

/-- `get`, `set` or `*` before the name of a method, or nothing. -/
def methodKind : Body := maybe (oneOf [getWord, setWord, star])

/-- Bodies between delimiters, separated by commas; a place may be empty. -/
def places (opening closing b : Body) : Body :=
  chain [opening, maybe (separated comma (maybe b)), closing]

/-- The forms of expressions, objects, arrays and patterns. -/
def expressionForms (d : Dialect) : Category → List Form
  | parenthesized =>
    [chain [openParen,
      oneOf [chain [expression, d.onlyTyped (maybe typing)], sequence], closeParen]]
  | expression =>
    d.forms
      [ oneOf [primary, assignment, combinedAssignment, awaiting, unary, binary, conditional,
          increment, creation, yieldExpression, arrow],
        if d.markup then oneOf [element, emptyElement] else typeAssertion ]
      [ oneOf [asExpression, satisfiesExpression, instantiation, namespaceDeclaration] ]
  | primary =>
    [d.withTyped
      [subscript, member, parenthesized, undefinedWord, name, nameWord d, thisWord, superWord,
        number, text, template, regex, trueWord, falseWord, nullWord, object, array,
        functionExpression, generatorExpression, classExpression, metaProperty, call]
      [nonNull]]
  | yieldExpression =>
    [.rightward .ordinary (chain [yieldWord, oneOf [chain [star, expression], maybe expression]])]
  | object =>
    [.bound .object (places openBrace closeBrace (oneOf [pair, spread, method, anyName d]))]
  | objectPattern =>
    [.bound .object
      (places openBrace closeBrace (oneOf [pairPattern, restPattern, defaultedMember, anyName d]))]
  | defaultedPattern => [chain [pattern, equals, expression]]
  | defaultedMember => [chain [oneOf [anyName d, destructuring], equals, expression]]
  | array => [places openBracket closeBracket (oneOf [expression, spread])]
  | arrayPattern => [places openBracket closeBracket (oneOf [pattern, defaultedPattern])]
  | pattern => [.weighing (-1) (oneOf [target d, restPattern])]
  | restPattern => [.rightward .ordinary (chain [dots, target d])]
  | destructuring => [oneOf [objectPattern, arrayPattern]]
  | spread => [chain [dots, expression]]
  | pair => [chain [propertyName, colon, expression]]
  | pairPattern => [chain [propertyName, colon, oneOf [pattern, defaultedPattern]]]
  | propertyName => [oneOf [anyName d, privateName, text, number, computedName]]
  | computedName => [chain [openBracket, expression, closeBracket]]
  | initializer => [chain [equals, expression]]
  | template =>
    [chain [tick, many (oneOf [templateText, escape, substitution]), tick]]
  | substitution => [chain [openHole, expressions, closeBrace]]
  | Category.regex => [chain [slash, regexRest]]
  | metaProperty =>
    [oneOf [chain [newWord, dot, targetWord], chain [importWord, dot, metaWord]]]
  | Category.arguments => [places openParen closeParen (oneOf [expression, spread])]
  | _ => []

/-- The operators between two operands, with how they bind. -/
def operators : List (Level × Side × List Token) :=
  [ (.logicalAnd, .left, [andAnd]),
    (.logicalOr, .left, [orOr]),
    (.shift, .left, [shiftRight, wideShiftRight, shiftLeft]),
    (.bitAnd, .left, [ampersand]),
    (.bitXor, .left, [caret]),
    (.bitOr, .left, [bar]),
    (.plus, .left, [plus, minus]),
    (.times, .left, [star, slash, percent]),
    (.power, .right, [power]),
    (.relation, .left, [less, atMost, greater, atLeast, instanceofWord]),
    (.equality, .left, [looseEquals, strictEquals, looseDiffers, strictDiffers]),
    (.conditional, .left, [coalesce]) ]

/-- The forms of operators and of what stands behind a value. -/
def operatorForms (d : Dialect) : Category → List Form
  | call =>
    [ .bound .call
        (chain [oneOf [expression, importOperand], d.onlyTyped (maybe typeArguments),
          Category.arguments]),
      .bound .templateCall (chain [oneOf [primary, creation], template]),
      .bound .member
        (chain [primary, optionalDot, d.onlyTyped (maybe typeArguments), Category.arguments]) ]
  | creation =>
    if d.types then
      [.rightward (.level .creation)
        (chain [newWord, primary, maybe typeArguments, maybe Category.arguments])]
    else
      [ ⟨chain [newWord, oneOf [primary, creation], Category.arguments],
          ⟨.level .creation, some .right, 1⟩⟩,
        .rightward (.level .creation) (chain [newWord, oneOf [primary, creation]]) ]
  | awaiting => [.bound .leading (chain [awaitWord, expression])]
  | member =>
    [.bound .member
      (chain [oneOf [expression, primary, importOperand], oneOf [dot, optionalDot],
        oneOf [privateName, name]])]
  | subscript =>
    [.rightward (.level .member)
      (chain [oneOf [expression, primary], maybe optionalDot, openBracket, expressions,
        closeBracket])]
  | assignment =>
    [.rightward (.level .assign)
      (chain [if d.types then nothing else maybe usingWord, oneOf [parenthesized, target d],
        equals, expression])]
  | combinedTarget =>
    [d.withTyped [member, subscript, nameWord d, name, parenthesized] [nonNull]]
  | combinedAssignment =>
    [.rightward (.level .assign)
      (chain [combinedTarget,
        oneOf [plusEquals, minusEquals, starEquals, slashEquals, percentEquals, caretEquals,
          ampersandEquals, barEquals, shiftRightEquals, wideShiftRightEquals, shiftLeftEquals,
          powerEquals, andAndEquals, orOrEquals, coalesceEquals],
        expression])]
  | conditional =>
    [.rightward (.level .conditional)
      (chain [expression, conditionalMark, expression, colon, expression])]
  | binary =>
    operators.map (fun (level, side, marks) =>
      ⟨chain [expression, oneOf (marks.map Body.token), expression],
        ⟨.level level, some side, 0⟩⟩) ++
    [.leftward (.level .relation) (chain [oneOf [expression, privateName], inWord, expression])]
  | unary =>
    [.leftward (.level .leading)
      (chain [oneOf [bang, tilde, minus, plus, typeofWord, voidWord, deleteWord], expression])]
  | increment =>
    let marks := oneOf [plusPlus, minusMinus]
    [.leftward .ordinary (oneOf [chain [expression, marks], chain [marks, expression]])]
  | .sequence => [.rightward .ordinary (separated comma expression)]
  | nonNull => [.leftward (.level .claim) (chain [expression, bang])]
  | typeAssertion => [.leftward (.level .claim) (chain [typeArguments, expression])]
  | asExpression =>
    [.leftward (.level .ascription) (chain [expression, asWord, oneOf [constWord, type]])]
  | satisfiesExpression =>
    [.leftward (.level .ascription) (chain [expression, satisfiesWord, type])]
  | instantiation => [.bound .instantiation (chain [expression, typeArguments])]
  | _ => []

end Grammar

end FileRoutes.Script
