import FileRoutes.Script.Word

/-!
# Numerals

A numeral is the longest run of characters that one of the number forms allows: digits
after `0x`, `0o` or `0b`, decimal digits with or without a fraction and an exponent, and
either of them with a final `n` where it is an integer. Digits may be parted by single
underscores.

## The model

`digitsLength` takes the digits of one base; the other functions add the lengths of the
parts, and `numeralLength` takes the longest form.
-/

namespace FileRoutes.Script

/-- The characters of a run of digits, single underscores between digits included. -/
def digitsLength (isDigit : Char → Bool) : List Char → Nat
  | '_' :: c :: cs => if isDigit c then digitsLength isDigit cs + 2 else 0
  | c :: cs => if isDigit c then digitsLength isDigit cs + 1 else 0
  | [] => 0

/-- The characters of a run of digits that does not start with an underscore. -/
def numberLength (isDigit : Char → Bool) (cs : List Char) : Nat :=
  if cs.head?.any isDigit then digitsLength isDigit cs else 0

/-- The digits of the base that a letter behind a zero stands for. -/
def baseDigits? : Char → Option (Char → Bool)
  | 'x' | 'X' => some isHexDigit
  | 'o' | 'O' => some fun c => '0' ≤ c && c ≤ '7'
  | 'b' | 'B' => some fun c => c == '0' || c == '1'
  | _ => none

/-- The characters of an exponent. -/
def exponentLength : List Char → Nat
  | e :: cs =>
    if e == 'e' || e == 'E' then
      let sign := if cs.head? == some '+' || cs.head? == some '-' then 1 else 0
      match numberLength Char.isDigit (cs.drop sign) with
      | 0 => 0
      | n => n + sign + 1
    else 0
  | [] => 0

/-- The characters of the whole part of a decimal with a fraction or an exponent: a zero, or
digits that do not start with two zeros. -/
def wholeLength (cs : List Char) : Nat :=
  match cs with
  | '0' :: c :: _ => if '1' ≤ c && c ≤ '9' then numberLength Char.isDigit cs else 1
  | c :: _ => if c.isDigit then numberLength Char.isDigit cs else 0
  | [] => 0

/-- The characters of a decimal that is more than an integer; zero if there is none. -/
def fractionLength (cs : List Char) : Nat :=
  let whole := wholeLength cs
  match whole, cs.drop whole with
  | 0, '.' :: rest =>
    match numberLength Char.isDigit rest with
    | 0 => 0
    | n => n + 1 + exponentLength (rest.drop n)
  | 0, _ => 0
  | n + 1, '.' :: rest =>
    let digits := numberLength Char.isDigit rest
    n + 2 + digits + exponentLength (rest.drop digits)
  | n + 1, rest =>
    match exponentLength rest with
    | 0 => 0
    | e => n + 1 + e

/-- The characters of an integer, a final `n` included; zero if there is none. -/
def integerLength (cs : List Char) : Nat :=
  let based := match cs with
    | '0' :: letter :: rest =>
      match baseDigits? letter with
      | some isDigit =>
        match numberLength isDigit rest with
        | 0 => 0
        | n => n + 2
      | none => 0
    | _ => 0
  let digits := if based = 0 then numberLength Char.isDigit cs else based
  if digits ≠ 0 ∧ (cs.drop digits).head? = some 'n' then digits + 1 else digits

/-- The characters of the numeral that comes next; zero if there is none. -/
def numeralLength (cs : List Char) : Nat := max (fractionLength cs) (integerLength cs)

end FileRoutes.Script
