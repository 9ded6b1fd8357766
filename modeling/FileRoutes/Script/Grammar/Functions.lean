import FileRoutes.Script.Grammar.Expressions

/-!
# Functions and classes

Functions and classes, as declarations and as expressions, with their parameters, their
members and the decorators before them.
-/

namespace FileRoutes.Script

open Token Category Body

namespace Grammar

/-- The parameters of a function, with the type of its result where there may be one. -/
def parametersOf (d : Dialect) : Body := if d.types then signature else parameters

/-- `extends` and what follows, with the type parameters before it. -/
def classHead (d : Dialect) : Body := chain [d.onlyTyped (maybe typeParameters), maybe heritage]

/-- The words before the name of a method, in their order. -/
def methodMarks : Body :=
  chain [maybe accessModifier, maybe staticWord, maybe overrideModifier, maybe readonlyWord,
    maybe asyncWord, methodKind]

/-- The words before the name of a field that may have a type. -/
def fieldMarks : Body :=
  chain
    [ maybe (oneOf [chain [declareWord, maybe accessModifier],
        chain [accessModifier, maybe declareWord]]),
      oneOf [chain [maybe staticWord, maybe overrideModifier, maybe readonlyWord],
        chain [maybe abstractWord, maybe readonlyWord],
        chain [maybe readonlyWord, maybe abstractWord],
        maybe accessorWord] ]

/-- The forms of functions, classes and their members. -/
def functionForms (d : Dialect) : Category → List Form
  | classExpression =>
    [.bound .literal (chain [many decorator, classWord, maybe name, classHead d, classBody])]
  | classDeclaration =>
    let body := chain [many decorator, classWord, name, classHead d, classBody, maybe statementEnd]
    [if d.types then .leftward (.level .declaration) body else .bound .declaration body]
  | heritage =>
    if d.types then [oneOf [chain [extendsClause, maybe implementsClause], implementsClause]]
    else [chain [extendsWord, expression]]
  | functionExpression =>
    [.bound .literal (chain [maybe asyncWord, functionWord, maybe name, parametersOf d, block])]
  | functionDeclaration =>
    [.rightward (.level .declaration)
      (chain [maybe asyncWord, functionWord, name, parametersOf d, block, maybe statementEnd])]
  | generatorExpression =>
    [.bound .literal
      (chain [maybe asyncWord, functionWord, star, maybe name, parametersOf d, block])]
  | generatorDeclaration =>
    [.rightward (.level .declaration)
      (chain [maybe asyncWord, functionWord, star, name, parametersOf d, block,
        maybe statementEnd])]
  | arrow =>
    [chain [maybe asyncWord, oneOf [anyName d, parametersOf d], fatArrow,
      oneOf [expression, block]]]
  | signature =>
    [chain [maybe typeParameters, parameters,
      maybe (oneOf [typing, assertionTyping, predicateTyping])]]
  | parameter => [oneOf [requiredParameter, optionalParameter]]
  | parameters =>
    let item : Body := if d.types then parameter else oneOf [pattern, defaultedPattern]
    [chain [openParen, maybe (chain [separated comma item, maybe comma]), closeParen]]
  | decorator =>
    [chain [atSign,
      d.withTyped [name, decoratorMember, decoratorCall] [decoratorParenthesized]]]
  | decoratorMember =>
    [.bound .member (chain [oneOf [name, decoratorMember], dot, name])]
  | decoratorCall =>
    [.bound .call
      (chain [oneOf [name, decoratorMember], d.onlyTyped (maybe typeArguments),
        Category.arguments])]
  | decoratorParenthesized =>
    [chain [openParen, oneOf [name, decoratorMember, decoratorCall], closeParen]]
  | classBody =>
    let signatureOnly := oneOf [signatureEnd, comma]
    let item :=
      if d.types then
        oneOf [chain [many decorator, method, maybe terminator],
          chain [methodSignature, signatureOnly],
          staticBlock,
          chain [oneOf [abstractMethod, indexSignature, methodSignature, typedField],
            oneOf [terminator, comma]],
          semicolon]
      else
        oneOf [chain [method, maybe semicolon], chain [field, terminator], staticBlock, semicolon]
    [chain [openBrace, many item, closeBrace]]
  | field => [chain [many decorator, maybe staticWord, propertyName, maybe initializer]]
  | staticBlock => [chain [staticWord, block]]
  | method =>
    if d.types then
      [.leftward .ordinary
        (chain [methodMarks, propertyName, maybe question, signature, block])]
    else
      [chain [many decorator, maybe (oneOf [staticWord, staticGet]), maybe asyncWord, methodKind,
        propertyName, parameters, block]]
  | typedField =>
    [chain [many decorator, fieldMarks, propertyName, maybe (oneOf [question, bang]),
      maybe typing, maybe initializer]]
  | methodSignature => [chain [methodMarks, propertyName, maybe question, signature]]
  | abstractMethod =>
    [chain [maybe accessModifier, abstractWord, maybe overrideModifier, methodKind, propertyName,
      maybe question, signature]]
  | functionSignature =>
    [chain [maybe asyncWord, functionWord, name, signature, oneOf [terminator, signatureEnd]]]
  | extendsClause => [chain [extendsWord, separated comma extended]]
  | extended => [.bound .extension (chain [expression, maybe typeArguments])]
  | implementsClause => [chain [implementsWord, separated comma type]]
  | abstractClass =>
    [.bound .declaration
      (chain [many decorator, abstractWord, classWord, name, classHead d, classBody])]
  | accessModifier => [oneOf [publicWord, privateWord, protectedWord]]
  | overrideModifier => [overrideWord]
  | requiredParameter => [chain [parameterName, maybe typing, maybe initializer]]
  | optionalParameter => [chain [parameterName, question, maybe typing, maybe initializer]]
  | parameterName =>
    [chain [many decorator, maybe accessModifier, maybe overrideModifier, maybe readonlyWord,
      oneOf [pattern, thisWord]]]
  | _ => []

end Grammar

end FileRoutes.Script
