import FileRoutes.Script.Grammar.Modules

/-!
# Statements

Declarations of variables, blocks, and the statements that say what is done next.
-/

namespace FileRoutes.Script

open Token Category Body

namespace Grammar

/-- An expression, or several joined by commas. -/
def expressions : Body := oneOf [expression, sequence]

/-- What can be assigned to without parentheses. -/
def target (d : Dialect) : Body :=
  d.withTyped [member, subscript, undefinedWord, name, nameWord d, destructuring] [nonNull]

/-- The forms of statements. -/
def statementForms (d : Dialect) : Category → List Form
  | statement =>
    [oneOf [exportStatement, importStatement, debuggerStatement, expressionStatement, declaration,
      block, ifStatement, switchStatement, forStatement, forEachStatement, whileStatement,
      doStatement, tryStatement, withStatement, breakStatement, continueStatement,
      returnStatement, throwStatement, emptyStatement, labeledStatement]]
  | expressionStatement => [chain [expressions, terminator]]
  | varDeclaration => [chain [varWord, separated comma binding, terminator]]
  | letDeclaration => [chain [oneOf [letWord, constWord], separated comma binding, terminator]]
  | binding =>
    d.forms
      [ chain [oneOf [name, destructuring], d.onlyTyped (maybe typing), maybe initializer] ]
      [ .bound .declaration (chain [name, bang, typing]) ]
  | block => [.rightward .ordinary (chain [openBrace, many statement, closeBrace, maybe statementEnd])]
  | elseClause => [chain [elseWord, statement]]
  | ifStatement =>
    [.rightward .ordinary (chain [ifWord, parenthesized, statement, maybe elseClause])]
  | switchStatement => [chain [switchWord, parenthesized, switchBody]]
  | forStatement =>
    [chain [forWord, openParen,
      oneOf [letDeclaration, varDeclaration, chain [expressions, semicolon], emptyStatement],
      oneOf [chain [expressions, semicolon], emptyStatement],
      maybe expressions, closeParen, statement]]
  | forEachStatement => [chain [forWord, maybe awaitWord, forEachHeader, statement]]
  | forEachHeader =>
    [chain [openParen,
      oneOf [target d, parenthesized,
        chain [varWord, oneOf [name, destructuring], maybe initializer],
        chain [oneOf [letWord, constWord], oneOf [name, destructuring], maybe statementEnd]],
      oneOf [inWord, ofWord], expressions, closeParen]]
  | whileStatement => [chain [whileWord, parenthesized, statement]]
  | doStatement =>
    [.rightward .ordinary (chain [doWord, statement, whileWord, parenthesized, maybe terminator])]
  | tryStatement => [chain [tryWord, block, maybe catchClause, maybe finallyClause]]
  | withStatement => [chain [withWord, parenthesized, statement]]
  | breakStatement => [chain [breakWord, maybe name, terminator]]
  | continueStatement => [chain [continueWord, maybe name, terminator]]
  | debuggerStatement => [chain [debuggerWord, terminator]]
  | returnStatement => [chain [returnWord, maybe expressions, terminator]]
  | throwStatement => [chain [throwWord, expressions, terminator]]
  | emptyStatement => [semicolon]
  | labeledStatement => [.weighing (-1) (chain [anyName d, colon, statement])]
  | switchBody => [chain [openBrace, many (oneOf [switchCase, switchDefault]), closeBrace]]
  | switchCase => [chain [caseWord, expressions, colon, many statement]]
  | switchDefault => [chain [defaultWord, colon, many statement]]
  | catchClause =>
    [chain [catchWord,
      maybe (chain [openParen, oneOf [name, destructuring], d.onlyTyped (maybe typing),
        closeParen]),
      block]]
  | finallyClause => [chain [finallyWord, block]]
  | _ => []

end Grammar

end FileRoutes.Script
