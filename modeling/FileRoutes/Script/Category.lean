/-!
# The categories of the grammar

A category is a kind of phrase: a statement, an expression, the parameters of a function.
Two categories may have the same phrases where the place tells them apart, and a phrase
that could be of two categories is read as both until something decides.

The order counts in one place: of two categories that end together, the one listed first is
looked at first.

## The model

* `Category` — the categories, those of plain scripts before those that types add.
* `Category.all` — all of them in order.
-/

namespace FileRoutes.Script

/-- A kind of phrase. -/
inductive Category where
  /-- A module. -/
  | program
  /-- A statement that starts with `export`. -/
  | exportStatement
  /-- `* as n`, all names of another module under one. -/
  | namespaceExport
  /-- The names between braces behind `export`. -/
  | exportClause
  /-- A name that is exported, perhaps as another. -/
  | exportSpecifier
  /-- A name under which something is exported. -/
  | exportName
  /-- A declaration. -/
  | declaration
  /-- `import` where an expression may stand. -/
  | importOperand
  /-- A statement that starts with `import`. -/
  | importStatement
  /-- What is imported. -/
  | importClause
  /-- `from` and the module that is meant. -/
  | fromClause
  /-- `* as n`, all names of a module under one. -/
  | namespaceImport
  /-- The names between braces behind `import`. -/
  | namedImports
  /-- A name that is imported, perhaps as another. -/
  | importSpecifier
  /-- `with` and an object, behind an import. -/
  | importAttribute
  /-- A statement. -/
  | statement
  /-- An expression as a statement. -/
  | expressionStatement
  /-- Variables declared by `var`. -/
  | varDeclaration
  /-- Variables declared by `let` or `const`. -/
  | letDeclaration
  /-- One variable of a declaration. -/
  | binding
  /-- Statements between braces. -/
  | block
  /-- The `else` of an `if`. -/
  | elseClause
  /-- An `if`. -/
  | ifStatement
  /-- A `switch`. -/
  | switchStatement
  /-- A `for` with start, condition and step. -/
  | forStatement
  /-- A `for` over the members of a value. -/
  | forEachStatement
  /-- The part between the parentheses of a `for` over members. -/
  | forEachHeader
  /-- A `while`. -/
  | whileStatement
  /-- A `do` with its `while`. -/
  | doStatement
  /-- A `try` with its clauses. -/
  | tryStatement
  /-- A `with`. -/
  | withStatement
  /-- A `break`. -/
  | breakStatement
  /-- A `continue`. -/
  | continueStatement
  /-- A `debugger`. -/
  | debuggerStatement
  /-- A `return`. -/
  | returnStatement
  /-- A `throw`. -/
  | throwStatement
  /-- A semicolon alone. -/
  | emptyStatement
  /-- A statement with a label. -/
  | labeledStatement
  /-- The cases of a `switch`. -/
  | switchBody
  /-- A `case` and its statements. -/
  | switchCase
  /-- The `default` of a `switch`. -/
  | switchDefault
  /-- The `catch` of a `try`. -/
  | catchClause
  /-- The `finally` of a `try`. -/
  | finallyClause
  /-- An expression in parentheses. -/
  | parenthesized
  /-- An expression without a comma of its own. -/
  | expression
  /-- An expression that binds like a single word. -/
  | primary
  /-- A `yield`. -/
  | yieldExpression
  /-- An object. -/
  | object
  /-- A pattern for objects. -/
  | objectPattern
  /-- A pattern with a value for what is missing. -/
  | defaultedPattern
  /-- A member of an object pattern with a value for what is missing. -/
  | defaultedMember
  /-- An array. -/
  | array
  /-- A pattern for arrays. -/
  | arrayPattern
  /-- An element with its content. -/
  | element
  /-- An expression between braces inside an element. -/
  | elementHole
  /-- The tag that opens an element. -/
  | openingTag
  /-- Names joined by points. -/
  | dottedName
  /-- Two names joined by a colon. -/
  | namespacedName
  /-- The tag that closes an element. -/
  | closingTag
  /-- An element without content. -/
  | emptyElement
  /-- An attribute of an element. -/
  | tagAttribute
  /-- A class as an expression. -/
  | classExpression
  /-- A class as a declaration. -/
  | classDeclaration
  /-- What a class extends and implements. -/
  | heritage
  /-- A function as an expression. -/
  | functionExpression
  /-- A function as a declaration. -/
  | functionDeclaration
  /-- A generator as an expression. -/
  | generatorExpression
  /-- A generator as a declaration. -/
  | generatorDeclaration
  /-- A function written with an arrow. -/
  | arrow
  /-- The parameters of a function and the type of its result. -/
  | signature
  /-- A parameter. -/
  | parameter
  /-- A call. -/
  | call
  /-- A `new` with what it creates. -/
  | creation
  /-- An `await`. -/
  | awaiting
  /-- A named member of a value. -/
  | member
  /-- A member of a value, named by an expression. -/
  | subscript
  /-- An assignment. -/
  | assignment
  /-- The target of an assignment that computes. -/
  | combinedTarget
  /-- An assignment that computes, such as `+=`. -/
  | combinedAssignment
  /-- `=` and the initial value. -/
  | initializer
  /-- A pattern for objects or arrays. -/
  | destructuring
  /-- `...` and the value whose members are put in. -/
  | spread
  /-- A conditional expression. -/
  | conditional
  /-- An operator between two operands. -/
  | binary
  /-- An operator before its operand. -/
  | unary
  /-- `++` or `--` at its operand. -/
  | increment
  /-- Expressions joined by commas. -/
  | sequence
  /-- A template between backticks. -/
  | template
  /-- An expression in a template. -/
  | substitution
  /-- A regular expression. -/
  | regex
  /-- `new.target` or `import.meta`. -/
  | metaProperty
  /-- The arguments of a call. -/
  | arguments
  /-- A decorator. -/
  | decorator
  /-- Names joined by points in a decorator. -/
  | decoratorMember
  /-- A call in a decorator. -/
  | decoratorCall
  /-- The members of a class. -/
  | classBody
  /-- A field of a class. -/
  | field
  /-- The parameters of a function. -/
  | parameters
  /-- A block that is run once for a class. -/
  | staticBlock
  /-- What a value can be bound or assigned to. -/
  | pattern
  /-- A pattern for all that is left. -/
  | restPattern
  /-- A method with a body. -/
  | method
  /-- A member of an object with its value. -/
  | pair
  /-- A member of an object pattern with its pattern. -/
  | pairPattern
  /-- The name of a member. -/
  | propertyName
  /-- The name of a member, given by an expression. -/
  | computedName
  /-- A field of a class that may have a type. -/
  | typedField
  /-- A name that is imported, `type` included. -/
  | importedName
  /-- `!` behind an expression. -/
  | nonNull
  /-- A method without a body. -/
  | methodSignature
  /-- An abstract method. -/
  | abstractMethod
  /-- A function without a body. -/
  | functionSignature
  /-- Parentheses in a decorator. -/
  | decoratorParenthesized
  /-- A type in angle brackets before an expression. -/
  | typeAssertion
  /-- `as` and a type behind an expression. -/
  | asExpression
  /-- `satisfies` and a type behind an expression. -/
  | satisfiesExpression
  /-- An expression with types for its parameters. -/
  | instantiation
  /-- A name and the module it is required from. -/
  | requireClause
  /-- The classes that a class extends. -/
  | extendsClause
  /-- One class that a class extends. -/
  | extended
  /-- The types that a class implements. -/
  | implementsClause
  /-- A `declare`. -/
  | ambientDeclaration
  /-- An abstract class. -/
  | abstractClass
  /-- A `module`. -/
  | moduleDeclaration
  /-- A `namespace`. -/
  | namespaceDeclaration
  /-- The name of a module or namespace and its statements. -/
  | moduleBody
  /-- A name for a part of a namespace. -/
  | importAlias
  /-- A type in a namespace. -/
  | dottedTypeName
  /-- An `interface`. -/
  | interfaceDeclaration
  /-- The types that an interface extends. -/
  | extendsTypes
  /-- An `enum`. -/
  | enumDeclaration
  /-- The members of an enumeration. -/
  | enumBody
  /-- A member of an enumeration with its value. -/
  | enumMember
  /-- A `type`. -/
  | typeAlias
  /-- `public`, `private` or `protected`. -/
  | accessModifier
  /-- `override`. -/
  | overrideModifier
  /-- A parameter that a call has to give. -/
  | requiredParameter
  /-- A parameter that a call may leave out. -/
  | optionalParameter
  /-- A parameter without its type. -/
  | parameterName
  /-- `-?:` and a type. -/
  | omittingTyping
  /-- `+?:` and a type. -/
  | addingTyping
  /-- `?:` and a type. -/
  | optingTyping
  /-- `:` and a type. -/
  | typing
  /-- A member of an imported module, in a type. -/
  | importedMember
  /-- A call of `import`, in a type. -/
  | importedCall
  /-- `asserts` and what is asserted. -/
  | assertion
  /-- `:` and an assertion. -/
  | assertionTyping
  /-- A type. -/
  | type
  /-- A named element of a tuple. -/
  | tupleElement
  /-- A named element of a tuple that may be missing. -/
  | optionalTupleElement
  /-- The type of an element that may be missing. -/
  | optionalType
  /-- The type of all elements that are left. -/
  | restType
  /-- An element of a tuple. -/
  | tupleMember
  /-- The type of a constructor. -/
  | constructorType
  /-- A type that binds like a single word. -/
  | primaryType
  /-- A type in a template. -/
  | templateType
  /-- A template as a type. -/
  | templateLiteralType
  /-- `infer` and a name. -/
  | inferType
  /-- A conditional type. -/
  | conditionalType
  /-- A type with arguments. -/
  | genericType
  /-- `x is T`. -/
  | typePredicate
  /-- `:` and a type predicate. -/
  | predicateTyping
  /-- A member of a value, behind `typeof`. -/
  | queryMember
  /-- A member by its index, behind `typeof`. -/
  | querySubscript
  /-- A call, behind `typeof`. -/
  | queryCall
  /-- A value with types for its parameters, behind `typeof`. -/
  | queryInstantiation
  /-- `typeof` and a value, as a type. -/
  | typeQuery
  /-- `keyof` and a type. -/
  | keyType
  /-- A member of a type. -/
  | lookupType
  /-- The names of a mapped type. -/
  | mappedClause
  /-- A literal as a type. -/
  | literalType
  /-- A number with a sign. -/
  | signedNumber
  /-- `*` as a type. -/
  | anyOneType
  /-- `?` before a type. -/
  | maybeType
  /-- A type in parentheses. -/
  | parenthesizedType
  /-- A type with a word of its own. -/
  | predefinedType
  /-- Types in angle brackets. -/
  | typeArguments
  /-- The type of an object, member by member. -/
  | objectType
  /-- The type of a call, as a member. -/
  | callSignature
  /-- A property, as a member of a type. -/
  | propertySignature
  /-- The type parameters of a declaration. -/
  | typeParameters
  /-- A type parameter. -/
  | typeParameter
  /-- `=` and the type that stands for a missing one. -/
  | defaultType
  /-- The bound of a type parameter. -/
  | constraint
  /-- The type of a constructor, as a member. -/
  | constructSignature
  /-- Members named by an index. -/
  | indexSignature
  /-- The type of an array. -/
  | arrayType
  /-- The type of a tuple. -/
  | tupleType
  /-- `readonly` and a type. -/
  | readonlyType
  /-- Either of two types. -/
  | unionType
  /-- Both of two types. -/
  | intersectionType
  /-- The type of a function. -/
  | functionType
deriving DecidableEq, Inhabited

namespace Category

/-- The number of categories. -/
def count : Nat := functionType.ctorIdx + 1

/-- The categories in order. -/
def all : List Category := (List.range count).map ofNat

end Category

end FileRoutes.Script
