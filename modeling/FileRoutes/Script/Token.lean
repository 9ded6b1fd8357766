/-!
# Kinds of lexemes

A source is a row of lexemes: words with a meaning of their own, marks made of punctuation,
and lexemes that are told by their shape, such as names, numbers and texts. Some lexemes
have no characters at all: the end of a statement may go without a mark.

## The model

* `Token` — the kinds of lexemes that the grammar tells apart.
* `Token.all` — all of them in order.
* `wordsFrom`, `marksFrom` — the words and marks, by the character they start with.
* `Token.ofWord?` — the kind of a word that has a meaning of its own.
-/

namespace FileRoutes.Script

/-- A kind of lexeme. -/
inductive Token where
  /-- `abstract`. -/
  | abstractWord
  /-- `accessor`. -/
  | accessorWord
  /-- `any`. -/
  | anyWord
  /-- `as`. -/
  | asWord
  /-- `asserts`. -/
  | assertsWord
  /-- `async`. -/
  | asyncWord
  /-- `await`. -/
  | awaitWord
  /-- `boolean`. -/
  | booleanWord
  /-- `break`. -/
  | breakWord
  /-- `case`. -/
  | caseWord
  /-- `catch`. -/
  | catchWord
  /-- `class`. -/
  | classWord
  /-- `const`. -/
  | constWord
  /-- `continue`. -/
  | continueWord
  /-- `debugger`. -/
  | debuggerWord
  /-- `declare`. -/
  | declareWord
  /-- `default`. -/
  | defaultWord
  /-- `delete`. -/
  | deleteWord
  /-- `do`. -/
  | doWord
  /-- `else`. -/
  | elseWord
  /-- `enum`. -/
  | enumWord
  /-- `export`. -/
  | exportWord
  /-- `extends`. -/
  | extendsWord
  /-- `false`. -/
  | falseWord
  /-- `finally`. -/
  | finallyWord
  /-- `for`. -/
  | forWord
  /-- `from`. -/
  | fromWord
  /-- `function`. -/
  | functionWord
  /-- `get`. -/
  | getWord
  /-- `global`. -/
  | globalWord
  /-- `if`. -/
  | ifWord
  /-- `implements`. -/
  | implementsWord
  /-- `import`. -/
  | importWord
  /-- `in`. -/
  | inWord
  /-- `infer`. -/
  | inferWord
  /-- `instanceof`. -/
  | instanceofWord
  /-- `interface`. -/
  | interfaceWord
  /-- `is`. -/
  | isWord
  /-- `keyof`. -/
  | keyofWord
  /-- `let`. -/
  | letWord
  /-- `meta`. -/
  | metaWord
  /-- `module`. -/
  | moduleWord
  /-- `namespace`. -/
  | namespaceWord
  /-- `never`. -/
  | neverWord
  /-- `new`. -/
  | newWord
  /-- `null`. -/
  | nullWord
  /-- `number`. -/
  | numberWord
  /-- `object`. -/
  | objectWord
  /-- `of`. -/
  | ofWord
  /-- `override`. -/
  | overrideWord
  /-- `private`. -/
  | privateWord
  /-- `protected`. -/
  | protectedWord
  /-- `public`. -/
  | publicWord
  /-- `readonly`. -/
  | readonlyWord
  /-- `require`. -/
  | requireWord
  /-- `return`. -/
  | returnWord
  /-- `satisfies`. -/
  | satisfiesWord
  /-- `set`. -/
  | setWord
  /-- `static`. -/
  | staticWord
  /-- `string`. -/
  | stringWord
  /-- `super`. -/
  | superWord
  /-- `switch`. -/
  | switchWord
  /-- `symbol`. -/
  | symbolWord
  /-- `target`. -/
  | targetWord
  /-- `this`. -/
  | thisWord
  /-- `throw`. -/
  | throwWord
  /-- `true`. -/
  | trueWord
  /-- `try`. -/
  | tryWord
  /-- `type`. -/
  | typeWord
  /-- `typeof`. -/
  | typeofWord
  /-- `undefined`. -/
  | undefinedWord
  /-- `unique`. -/
  | uniqueWord
  /-- `unknown`. -/
  | unknownWord
  /-- `using`. -/
  | usingWord
  /-- `var`. -/
  | varWord
  /-- `void`. -/
  | voidWord
  /-- `while`. -/
  | whileWord
  /-- `with`. -/
  | withWord
  /-- `yield`. -/
  | yieldWord
  /-- `{`. -/
  | openBrace
  /-- `}`. -/
  | closeBrace
  /-- `(`. -/
  | openParen
  /-- `)`. -/
  | closeParen
  /-- `[`. -/
  | openBracket
  /-- `]`. -/
  | closeBracket
  /-- `{|`. -/
  | openBraceBar
  /-- `|}`. -/
  | barCloseBrace
  /-- `${`. -/
  | openHole
  /-- A backtick. -/
  | tick
  /-- `,`. -/
  | comma
  /-- `;`. -/
  | semicolon
  /-- `:`. -/
  | colon
  /-- `.`. -/
  | dot
  /-- `...`. -/
  | dots
  /-- `?.`. -/
  | optionalDot
  /-- `?`. -/
  | question
  /-- `?:`. -/
  | questionColon
  /-- `-?:`. -/
  | minusQuestionColon
  /-- `+?:`. -/
  | plusQuestionColon
  /-- `=>`. -/
  | fatArrow
  /-- `@`. -/
  | atSign
  /-- `!`. -/
  | bang
  /-- `~`. -/
  | tilde
  /-- `<`. -/
  | less
  /-- `>`. -/
  | greater
  /-- `</`. -/
  | lessSlash
  /-- `/>`. -/
  | slashGreater
  /-- `<=`. -/
  | atMost
  /-- `>=`. -/
  | atLeast
  /-- `==`. -/
  | looseEquals
  /-- `===`. -/
  | strictEquals
  /-- `!=`. -/
  | looseDiffers
  /-- `!==`. -/
  | strictDiffers
  /-- `+`. -/
  | plus
  /-- `-`. -/
  | minus
  /-- `*`. -/
  | star
  /-- `/`. -/
  | slash
  /-- `%`. -/
  | percent
  /-- `**`. -/
  | power
  /-- `++`. -/
  | plusPlus
  /-- `--`. -/
  | minusMinus
  /-- `<<`. -/
  | shiftLeft
  /-- `>>`. -/
  | shiftRight
  /-- `>>>`. -/
  | wideShiftRight
  /-- `&`. -/
  | ampersand
  /-- `|`. -/
  | bar
  /-- `^`. -/
  | caret
  /-- `&&`. -/
  | andAnd
  /-- `||`. -/
  | orOr
  /-- `??`. -/
  | coalesce
  /-- `=`. -/
  | equals
  /-- `+=`. -/
  | plusEquals
  /-- `-=`. -/
  | minusEquals
  /-- `*=`. -/
  | starEquals
  /-- `/=`. -/
  | slashEquals
  /-- `%=`. -/
  | percentEquals
  /-- `**=`. -/
  | powerEquals
  /-- `<<=`. -/
  | shiftLeftEquals
  /-- `>>=`. -/
  | shiftRightEquals
  /-- `>>>=`. -/
  | wideShiftRightEquals
  /-- `&=`. -/
  | ampersandEquals
  /-- `|=`. -/
  | barEquals
  /-- `^=`. -/
  | caretEquals
  /-- `&&=`. -/
  | andAndEquals
  /-- `||=`. -/
  | orOrEquals
  /-- `??=`. -/
  | coalesceEquals
  /-- A name. -/
  | name
  /-- A name behind `#`. -/
  | privateName
  /-- A name with hyphens, as elements and attributes may have. -/
  | dashedName
  /-- A number. -/
  | number
  /-- A text between single or double quotes. -/
  | text
  /-- The text of an attribute. -/
  | attributeText
  /-- The rest of a regular expression behind its first slash, with its flags. -/
  | regexRest
  /-- Characters of a template that stand for themselves. -/
  | templateText
  /-- An escape sequence in a template. -/
  | escape
  /-- A character written by name or number, as elements and attributes may hold. -/
  | reference
  /-- Text between the tags of an element. -/
  | elementText
  /-- The first line of a source that names its interpreter. -/
  | hashBang
  /-- `static get` at the end of a line. -/
  | staticGet
  /-- The `?` of a conditional expression. -/
  | conditionalMark
  /-- The end of a statement that nothing marks. -/
  | statementEnd
  /-- The end of a function's signature that nothing marks. -/
  | signatureEnd
  /-- The end of the source. -/
  | endOfSource
deriving DecidableEq, Inhabited

/-- The words that start with a letter and have a meaning of their own. -/
def wordsFrom : Char → List (String × Token)
  | 'a' =>
    [("abstract", .abstractWord), ("accessor", .accessorWord), ("any", .anyWord), ("as", .asWord),
      ("asserts", .assertsWord), ("async", .asyncWord), ("await", .awaitWord)]
  | 'b' => [("boolean", .booleanWord), ("break", .breakWord)]
  | 'c' =>
    [("case", .caseWord), ("catch", .catchWord), ("class", .classWord), ("const", .constWord),
      ("continue", .continueWord)]
  | 'd' =>
    [("debugger", .debuggerWord), ("declare", .declareWord), ("default", .defaultWord),
      ("delete", .deleteWord), ("do", .doWord)]
  | 'e' =>
    [("else", .elseWord), ("enum", .enumWord), ("export", .exportWord), ("extends", .extendsWord)]
  | 'f' =>
    [("false", .falseWord), ("finally", .finallyWord), ("for", .forWord), ("from", .fromWord),
      ("function", .functionWord)]
  | 'g' => [("get", .getWord), ("global", .globalWord)]
  | 'i' =>
    [("if", .ifWord), ("implements", .implementsWord), ("import", .importWord), ("in", .inWord),
      ("infer", .inferWord), ("instanceof", .instanceofWord), ("interface", .interfaceWord),
      ("is", .isWord)]
  | 'k' => [("keyof", .keyofWord)]
  | 'l' => [("let", .letWord)]
  | 'm' => [("meta", .metaWord), ("module", .moduleWord)]
  | 'n' =>
    [("namespace", .namespaceWord), ("never", .neverWord), ("new", .newWord), ("null", .nullWord),
      ("number", .numberWord)]
  | 'o' => [("object", .objectWord), ("of", .ofWord), ("override", .overrideWord)]
  | 'p' => [("private", .privateWord), ("protected", .protectedWord), ("public", .publicWord)]
  | 'r' => [("readonly", .readonlyWord), ("require", .requireWord), ("return", .returnWord)]
  | 's' =>
    [("satisfies", .satisfiesWord), ("set", .setWord), ("static", .staticWord),
      ("string", .stringWord), ("super", .superWord), ("switch", .switchWord),
      ("symbol", .symbolWord)]
  | 't' =>
    [("target", .targetWord), ("this", .thisWord), ("throw", .throwWord), ("true", .trueWord),
      ("try", .tryWord), ("type", .typeWord), ("typeof", .typeofWord)]
  | 'u' =>
    [("undefined", .undefinedWord), ("unique", .uniqueWord), ("unknown", .unknownWord),
      ("using", .usingWord)]
  | 'v' => [("var", .varWord), ("void", .voidWord)]
  | 'w' => [("while", .whileWord), ("with", .withWord)]
  | 'y' => [("yield", .yieldWord)]
  | _ => []

/-- The marks that start with a character: the characters behind it, longer marks first. -/
def marksFrom : Char → List (List Char × Token)
  | '\x7b' => [(['|'], .openBraceBar), ([], .openBrace)]
  | '\x7d' => [([], .closeBrace)]
  | '(' => [([], .openParen)]
  | ')' => [([], .closeParen)]
  | '[' => [([], .openBracket)]
  | ']' => [([], .closeBracket)]
  | '|' =>
    [(['|', '='], .orOrEquals), (['\x7d'], .barCloseBrace), (['|'], .orOr), (['='], .barEquals),
      ([], .bar)]
  | '$' => [(['\x7b'], .openHole)]
  | '\x60' => [([], .tick)]
  | ',' => [([], .comma)]
  | ';' => [([], .semicolon)]
  | ':' => [([], .colon)]
  | '.' => [(['.', '.'], .dots), ([], .dot)]
  | '?' =>
    [(['?', '='], .coalesceEquals), (['.'], .optionalDot), ([':'], .questionColon),
      (['?'], .coalesce), ([], .question)]
  | '-' =>
    [(['?', ':'], .minusQuestionColon), (['-'], .minusMinus), (['='], .minusEquals), ([], .minus)]
  | '+' =>
    [(['?', ':'], .plusQuestionColon), (['+'], .plusPlus), (['='], .plusEquals), ([], .plus)]
  | '=' => [(['=', '='], .strictEquals), (['>'], .fatArrow), (['='], .looseEquals), ([], .equals)]
  | '@' => [([], .atSign)]
  | '!' => [(['=', '='], .strictDiffers), (['='], .looseDiffers), ([], .bang)]
  | '~' => [([], .tilde)]
  | '<' =>
    [(['<', '='], .shiftLeftEquals), (['/'], .lessSlash), (['='], .atMost), (['<'], .shiftLeft),
      ([], .less)]
  | '>' =>
    [(['>', '>', '='], .wideShiftRightEquals), (['>', '>'], .wideShiftRight),
      (['>', '='], .shiftRightEquals), (['='], .atLeast), (['>'], .shiftRight), ([], .greater)]
  | '/' => [(['>'], .slashGreater), (['='], .slashEquals), ([], .slash)]
  | '*' => [(['*', '='], .powerEquals), (['*'], .power), (['='], .starEquals), ([], .star)]
  | '%' => [(['='], .percentEquals), ([], .percent)]
  | '&' =>
    [(['&', '='], .andAndEquals), (['&'], .andAnd), (['='], .ampersandEquals), ([], .ampersand)]
  | '^' => [(['='], .caretEquals), ([], .caret)]
  | _ => []

/-- The kinds of lexemes in order. -/
def Token.all : List Token := (List.range (endOfSource.ctorIdx + 1)).map ofNat

/-- The kind of a word that has a meaning of its own. -/
def Token.ofWord? (word : String) : Option Token := do
  let words := wordsFrom (← word.toList.head?)
  return (← words.find? fun w => w.1 == word).2

end FileRoutes.Script
