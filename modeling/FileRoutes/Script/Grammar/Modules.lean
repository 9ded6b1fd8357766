import FileRoutes.Script.Form
import FileRoutes.Script.Language

/-!
# Modules

A module is a row of statements. What it takes from other modules stands in its `import`
statements, what it gives to them in its `export` statements.

The names that are words only in some places are listed here too: such a word is a name
wherever a name may stand.
-/

namespace FileRoutes.Script

open Token Category Body

/-- A body that only sources with types have. -/
def Dialect.onlyTyped (d : Dialect) (b : Body) : Body := if d.types then b else nothing

/-- Bodies, and more of them where a source may hold types. -/
def Dialect.withTyped (d : Dialect) (bodies typed : List Body) : Body :=
  oneOf (if d.types then bodies ++ typed else bodies)

/-- Forms, and more of them where a source may hold types. -/
def Dialect.forms (d : Dialect) (forms typed : List Form) : List Form :=
  if d.types then forms ++ typed else forms

namespace Grammar

/-- One of some words or nothing, where a source may hold types. -/
def typedMark (d : Dialect) (words : List Body) : Body := d.onlyTyped (maybe (oneOf words))

/-- The end of a statement, marked or not. -/
def terminator : Body := oneOf [statementEnd, semicolon]

/-- Words that are names where nothing else is meant. -/
def nameWord (d : Dialect) : Body :=
  d.withTyped [getWord, setWord, asyncWord, staticWord, exportWord, letWord]
    [declareWord, namespaceWord, typeWord, publicWord, privateWord, protectedWord, overrideWord,
      readonlyWord, moduleWord, anyWord, numberWord, booleanWord, stringWord, symbolWord,
      objectWord, newWord]

/-- A name, or a word that is one here. -/
def anyName (d : Dialect) : Body := oneOf [name, nameWord d]

/-- Bodies between braces, separated by commas, a last comma allowed. -/
def braced (b : Body) : Body :=
  chain [openBrace, maybe (separated comma b), maybe comma, closeBrace]

/-- The forms of modules, imports and exports. -/
def moduleForms (d : Dialect) : Category → List Form
  | program => [chain [maybe hashBang, many statement]]
  | exportStatement =>
    d.forms
      [ chain [exportWord,
          oneOf [chain [star, fromClause], chain [namespaceExport, fromClause],
            chain [exportClause, fromClause], exportClause],
          terminator],
        chain [many decorator, exportWord,
          oneOf [declaration,
            chain [defaultWord, oneOf [declaration, chain [expression, terminator]]]]] ]
      [ chain [exportWord, typeWord, exportClause, maybe fromClause, terminator],
        chain [exportWord, importWord, importAlias],
        chain [exportWord, equals, expression, terminator],
        chain [exportWord, asWord, namespaceWord, name, terminator] ]
  | namespaceExport => [chain [star, asWord, exportName]]
  | exportClause => [braced exportSpecifier]
  | exportSpecifier =>
    [chain [typedMark d [typeWord, typeofWord], exportName, maybe (chain [asWord, exportName])]]
  | exportName => [oneOf [name, text, defaultWord]]
  | importOperand => [importWord]
  | importStatement =>
    [chain [importWord, typedMark d [typeWord, typeofWord],
      d.withTyped [chain [importClause, fromClause], text] [requireClause],
      maybe importAttribute, terminator]]
  | importClause =>
    let others := oneOf [namespaceImport, namedImports]
    [oneOf [others, chain [if d.types then importedName else name, maybe (chain [comma, others])]]]
  | fromClause => [chain [fromWord, text]]
  | namespaceImport => [chain [star, asWord, name]]
  | namedImports => [braced importSpecifier]
  | importSpecifier =>
    if d.types then
      [chain [typedMark d [typeWord, typeofWord],
        oneOf [importedName, chain [oneOf [exportName, typeWord], asWord, importedName]]]]
    else [oneOf [name, chain [exportName, asWord, name]]]
  | importAttribute => [chain [withWord, object]]
  | declaration =>
    d.forms
      [ oneOf [functionDeclaration, generatorDeclaration, classDeclaration, letDeclaration,
          varDeclaration] ]
      [ oneOf [functionSignature, abstractClass, moduleDeclaration, typeAlias, enumDeclaration,
          interfaceDeclaration, importAlias, ambientDeclaration],
        .bound .declaration namespaceDeclaration ]
  | importedName => [oneOf [name, typeWord]]
  | requireClause => [chain [name, equals, requireWord, openParen, text, closeParen]]
  | importAlias => [chain [importWord, name, equals, oneOf [name, dottedName], terminator]]
  | ambientDeclaration =>
    [chain [declareWord,
      oneOf [declaration, chain [globalWord, block],
        chain [moduleWord, dot, name, colon, type, terminator]]]]
  | moduleDeclaration => [chain [moduleWord, moduleBody]]
  | namespaceDeclaration => [chain [namespaceWord, moduleBody]]
  | moduleBody =>
    [.rightward .ordinary (chain [oneOf [text, name, dottedName], maybe block])]
  | _ => []

end Grammar

end FileRoutes.Script
