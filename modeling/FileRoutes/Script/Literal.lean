import FileRoutes.Script.Tree
import FileRoutes.Http.Method
import FileRoutes.Value

/-!
# Literals

The value of an expression that is made of literals alone. Nothing is executed: a call, a
name or a computed key is refused with its place. The one exception is a member of a name
that spells a method, as in `HttpMethod.POST`, which denotes the method's spelling.

## The model

* `EvalError` — why an expression has no value, and `EvalError.message`, what is said
  about it.
* `decodeParts` — the text that the parts of a string denote.
* `numberValue` — the number that a numeral denotes.
* `evaluate` — the value of an expression; the members of an object and the elements of an
  array are taken in order, and the first fault is the one reported.
-/

namespace FileRoutes.Script

/-- Why an expression has no value. -/
inductive EvalError where
  /-- An expression of a kind that is no literal. -/
  | unsupported (span : Span)
  /-- An escape that denotes no character; `body` is what follows the backslash. -/
  | invalidEscape (body : List Char)
  /-- An integer that does not fit into 64 bits. -/
  | outOfRange (written : String)
  /-- A number beyond the floating-point numbers. -/
  | notFinite (written : String)
deriving DecidableEq, Inhabited

/-! ### Texts -/

/-- The character with a hexadecimal number, if there is one. -/
def characterOf? (digits : List Char) : Option Char :=
  let n := Decimal.valueOf 16 digits
  if h : n.isValidChar then some (Char.ofNatAux n h) else none

/-- The characters that an escape sequence denotes; `body` is what follows the backslash. -/
def decodeEscape (body : List Char) : Except EvalError (List Char) :=
  let character (digits : List Char) : Except EvalError (List Char) :=
    match characterOf? digits with
    | some c => .ok [c]
    | none => .error (.invalidEscape body)
  match body with
  | [] => .error (.invalidEscape body)
  | 'n' :: _ => .ok ['\n']
  | 't' :: _ => .ok ['\t']
  | 'r' :: _ => .ok ['\r']
  | 'b' :: _ => .ok ['\x08']
  | 'f' :: _ => .ok ['\x0c']
  | 'v' :: _ => .ok ['\x0b']
  | ['0'] => .ok ['\x00']
  | 'x' :: digits => character digits
  | 'u' :: '\x7b' :: digits => character digits.dropLast
  | 'u' :: digits => character digits
  | c :: _ =>
    if c = '\n' ∨ c = '\r' ∨ c.toNat = 0x2028 ∨ c.toNat = 0x2029 then .ok [] else .ok [c]

/-- The characters that the parts of a text denote. -/
def decodeParts : List TextPart → Except EvalError (List Char)
  | [] => .ok []
  | .plain written :: parts => do return written ++ (← decodeParts parts)
  | .escape body :: parts => do
    let decoded ← decodeEscape body
    return decoded ++ (← decodeParts parts)
  | .hole span :: _ => .error (.unsupported span)

/-! ### Numbers -/

/-- The bound of the integers that fit into 64 bits with a sign. -/
def integerBound : Nat := Nat.pow 2 63

/-- The integers below this bound are told apart by floating-point numbers. -/
def exactBound : Nat := Nat.pow 2 53

/-- An integer, if it fits. -/
def integerValue (written : String) (n : Nat) : Except EvalError Value :=
  if n < integerBound then .ok (.int n) else .error (.outOfRange written)

/-- The exact decimal a numeral denotes: a significand and a power of ten. -/
def decimalOf (digits : List Char) : Nat × Int :=
  let mantissa := digits.takeWhile fun c => c != 'e'
  let whole := mantissa.takeWhile fun c => c != '.'
  let fraction := (mantissa.drop whole.length).drop 1
  let power : Int := match (digits.drop mantissa.length).drop 1 with
    | '-' :: ds => -(Decimal.valueOf 10 ds : Int)
    | '+' :: ds => Decimal.valueOf 10 ds
    | ds => Decimal.valueOf 10 ds
  (Decimal.valueOf 10 (whole ++ fraction), power - fraction.length)

/-- The number that a numeral denotes. An integer behind `0x`, `0o` or `0b`, or with a final
`n`, is taken exactly; any other numeral is rounded to a floating-point number, and is an
integer where that is one below `2 ^ 53`. -/
def numberValue (written : String) : Except EvalError Value :=
  let digits := (written.toList.filter fun c => c != '_').map Char.toLower
  let based (base : Nat) (ds : List Char) : Except EvalError Value :=
    integerValue written (Decimal.valueOf base (ds.filter fun c => c != 'n'))
  match digits with
  | '0' :: 'x' :: ds => based 16 ds
  | '0' :: 'o' :: ds => based 8 ds
  | '0' :: 'b' :: ds => based 2 ds
  | _ =>
    if digits.getLast? = some 'n' then based 10 digits
    else
      let (significand, power) := decimalOf digits
      match Binary64.ofDecimal false significand power with
      | none => .error (.notFinite written)
      | some x =>
        match x.toInt? with
        | some i => if i.natAbs < exactBound then .ok (.int i) else .ok (.float x)
        | none => .ok (.float x)

/-- The number with the other sign; none where the integer does not fit. -/
def negated? : Value → Option Value
  | .int i => if i = -(integerBound : Int) then none else some (.int (-i))
  | .float x => some (.float x.negate)
  | _ => none

/-- The value of an operator in front of a value. -/
def signedValue? : Sign → Value → Option Value
  | .plus, .int i => some (.int i)
  | .plus, .float x => some (.float x)
  | .minus, v => negated? v
  | _, _ => none

/-! ### Expressions -/

/-- The name that a key denotes. -/
def keyName : Key → Except EvalError String
  | .name written | .number written => .ok written
  | .text parts => String.ofList <$> decodeParts parts
  | .other span => .error (.unsupported span)

mutual

/-- The value of an expression. -/
def evaluate : Expr → Except EvalError Value
  | .wrapped _ inner => evaluate inner
  | .object _ members => do return .object (← evaluateMembers members [])
  | .array _ elements => do return .array (← evaluateElements elements)
  | .text _ parts => do return .text (String.ofList (← decodeParts parts))
  | .number _ written => numberValue written
  | .boolean _ value => .ok (.boolean value)
  | .null _ | .undefined _ => .ok .null
  | .unary span sign operand => do
    match signedValue? sign (← evaluate operand) with
    | some value => return value
    | none => throw (.unsupported span)
  | .member span (.name _ _) property =>
    if (Http.Method.parse? property).isSome then .ok (.text property)
    else .error (.unsupported span)
  | .member span _ _ => .error (.unsupported span)
  | .name span _ | .function span _ | .assignment span _ _ | .other span =>
    .error (.unsupported span)

/-- The members of an object, put among those before them. -/
def evaluateMembers : Members → List (String × Value) → Except EvalError (List (String × Value))
  | .nil, before => .ok before
  | .pair key value rest, before => do
    let name ← keyName key
    let v ← evaluate value
    evaluateMembers rest (Value.insert name v before)
  | .other span _, _ => .error (.unsupported span)

/-- The values of the elements of an array; positions without an element are passed over. -/
def evaluateElements : Elements → Except EvalError (List Value)
  | .nil => .ok []
  | .hole rest => evaluateElements rest
  | .item element rest => do
    let v ← evaluate element
    return v :: (← evaluateElements rest)

end

/-! ### Messages -/

/-- The line of an offset, counted from one. -/
def lineOf (source : List Char) (offset : Nat) : Nat := (source.take offset).count '\n' + 1

/-- The column of an offset in bytes, counted from one. -/
def columnOf (source : List Char) (offset : Nat) : Nat :=
  let line := (source.take offset).reverse.takeWhile fun c => c != '\n'
  (String.ofList line).utf8ByteSize + 1

/-- The first forty characters of a text, with an ellipsis where there are more. -/
def snippet (cs : List Char) : String :=
  String.ofList (cs.take 40) ++ (if 40 < cs.length then "…" else "")

/-- What is said about an expression without a value. -/
def EvalError.message (source : List Char) : EvalError → String
  | unsupported span =>
    let line := lineOf source span.start
    let column := columnOf source span.start
    "unsupported expression `" ++ snippet (span.slice source) ++ "` at line " ++
      Decimal.spelled line ++ ", column " ++ Decimal.spelled column ++
      " (only literal values are allowed)"
  | invalidEscape body => "invalid escape sequence `\\" ++ String.ofList body ++ "`"
  | outOfRange written =>
    "number literal `" ++ written ++ "` is out of range: number too large to fit in target type"
  | notFinite written => "number literal `" ++ written ++ "` is not finite"

end FileRoutes.Script
