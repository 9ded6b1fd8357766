import FileRoutes.Script.Grammar.Functions

/-!
# Types

Types, the annotations that carry them, and the declarations that give them names.
-/

namespace FileRoutes.Script

open Token Category Body

namespace Grammar

/-- A member by its name. -/
def memberName : Body := oneOf [privateName, name]

/-- What a `typeof` may go on from. -/
def queried : Body := oneOf [name, thisWord, querySubscript, queryMember, queryCall]

/-- What a `typeof` may call or give types to. -/
def queriedFunction : Body := oneOf [importOperand, name, queryMember, querySubscript]

/-- The forms of declarations of types, and of annotations. -/
def typingForms (d : Dialect) : Category → List Form
  | interfaceDeclaration =>
    [chain [interfaceWord, name, maybe typeParameters, maybe extendsTypes, objectType]]
  | extendsTypes =>
    [chain [extendsWord, separated comma (oneOf [name, dottedTypeName, genericType])]]
  | enumDeclaration => [chain [maybe constWord, enumWord, name, enumBody]]
  | enumBody =>
    let item := oneOf [propertyName, enumMember]
    [chain [openBrace, maybe (chain [separated comma item, maybe comma]), closeBrace]]
  | enumMember => [chain [propertyName, initializer]]
  | typeAlias => [chain [typeWord, name, maybe typeParameters, equals, type, terminator]]
  | dottedTypeName => [.bound .member (chain [oneOf [name, dottedName], dot, name])]
  | omittingTyping => [chain [minusQuestionColon, type]]
  | addingTyping => [chain [plusQuestionColon, type]]
  | optingTyping => [chain [questionColon, type]]
  | typing => [chain [colon, oneOf [type, importedMember, importedCall]]]
  | importedMember =>
    [chain [oneOf [importOperand, importedMember, importedCall], dot, memberName]]
  | importedCall => [chain [oneOf [importOperand, importedMember], Category.arguments]]
  | assertion => [chain [assertsWord, oneOf [typePredicate, name, thisWord]]]
  | assertionTyping => [chain [colon, assertion]]
  | typePredicate => [chain [oneOf [name, thisWord, predefinedType], isWord, type]]
  | predicateTyping => [chain [colon, typePredicate]]
  | typeArguments => [chain [less, separated comma type, maybe comma, greater]]
  | typeParameters => [chain [less, separated comma typeParameter, maybe comma, greater]]
  | typeParameter => [chain [maybe constWord, name, maybe Category.constraint, maybe defaultType]]
  | defaultType => [chain [equals, type]]
  | Category.constraint => [chain [oneOf [extendsWord, colon], type]]
  | callSignature => [signature]
  | propertySignature =>
    [chain [maybe accessModifier, maybe staticWord, maybe overrideModifier, maybe readonlyWord,
      propertyName, maybe question, maybe typing]]
  | constructSignature =>
    [chain [maybe abstractWord, newWord, maybe typeParameters, parameters, maybe typing]]
  | indexSignature =>
    [chain [maybe (chain [maybe (oneOf [minus, plus]), readonlyWord]), openBracket,
      oneOf [chain [anyName d, colon, type], mappedClause], closeBracket,
      oneOf [typing, omittingTyping, addingTyping, optingTyping]]]
  | mappedClause => [chain [name, inWord, type, maybe (chain [asWord, type])]]
  | _ => []

/-- The forms of types. -/
def typeForms : Category → List Form
  | type =>
    [ oneOf [primaryType, functionType, readonlyType, constructorType, inferType],
      ⟨oneOf [importedMember, importedCall], ⟨.low, none, 0⟩⟩ ]
  | tupleElement => [chain [oneOf [name, restPattern], typing]]
  | optionalTupleElement => [chain [name, question, typing]]
  | optionalType => [chain [type, question]]
  | restType => [chain [dots, type]]
  | tupleMember => [oneOf [tupleElement, optionalTupleElement, optionalType, restType, type]]
  | constructorType =>
    [.leftward .ordinary
      (chain [maybe abstractWord, newWord, maybe typeParameters, parameters, fatArrow, type])]
  | primaryType =>
    [oneOf [parenthesizedType, predefinedType, name, dottedTypeName, genericType, objectType,
      arrayType, tupleType, maybeType, typeQuery, keyType, thisWord, anyOneType, literalType,
      lookupType, conditionalType, templateLiteralType, intersectionType, unionType, constWord]]
  | templateType => [chain [openHole, oneOf [primaryType, inferType], closeBrace]]
  | templateLiteralType => [chain [tick, many (oneOf [templateText, templateType]), tick]]
  | inferType => [.rightward .ordinary (chain [inferWord, name, maybe (chain [extendsWord, type])])]
  | conditionalType =>
    [.rightward .ordinary (chain [type, extendsWord, type, question, type, colon, type])]
  | genericType => [.bound .call (chain [oneOf [name, dottedTypeName], typeArguments])]
  | queryMember => [chain [queried, oneOf [dot, optionalDot], memberName]]
  | querySubscript =>
    [chain [queried, maybe optionalDot, openBracket, oneOf [predefinedType, text, number],
      closeBracket]]
  | queryCall => [chain [queriedFunction, Category.arguments]]
  | queryInstantiation => [chain [queriedFunction, typeArguments]]
  | typeQuery =>
    [.rightward .ordinary
      (chain [typeofWord,
        oneOf [querySubscript, queryMember, queryCall, queryInstantiation, name, thisWord]])]
  | keyType => [chain [keyofWord, primaryType]]
  | lookupType => [chain [primaryType, openBracket, type, closeBracket]]
  | literalType =>
    [oneOf [signedNumber, number, text, trueWord, falseWord, nullWord, undefinedWord]]
  | signedNumber => [.leftward .high (chain [oneOf [minus, plus], number])]
  | anyOneType => [star]
  | maybeType => [.rightward .ordinary (chain [question, primaryType])]
  | parenthesizedType => [chain [openParen, type, closeParen]]
  | predefinedType =>
    [oneOf [anyWord, numberWord, booleanWord, stringWord, symbolWord,
      chain [uniqueWord, symbolWord], voidWord, unknownWord, neverWord, objectWord]]
  | objectType =>
    let separator := oneOf [comma, terminator]
    let item := oneOf [exportStatement, propertySignature, callSignature, constructSignature,
      indexSignature, methodSignature]
    [chain [oneOf [openBrace, openBraceBar],
      maybe (chain [maybe (oneOf [comma, semicolon]), separated separator item, maybe separator]),
      oneOf [closeBrace, barCloseBrace]]]
  | arrayType => [chain [primaryType, openBracket, closeBracket]]
  | tupleType => [chain [openBracket, maybe (separated comma tupleMember), maybe comma, closeBracket]]
  | readonlyType => [chain [readonlyWord, type]]
  | unionType => [.leftward .ordinary (chain [maybe type, bar, type])]
  | intersectionType => [.leftward .ordinary (chain [maybe type, ampersand, type])]
  | functionType =>
    [.leftward .ordinary
      (chain [maybe typeParameters, parameters, fatArrow, oneOf [type, assertion, typePredicate]])]
  | _ => []

end Grammar

end FileRoutes.Script
