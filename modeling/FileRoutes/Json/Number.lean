import FileRoutes.Json.Reader
import FileRoutes.Decimal.Shortest

/-!
# Numbers in JSON

A number without a fraction and an exponent is an integer as long as it fits into 64 bits,
with or without a sign; any other number is a floating-point number. Its digits are taken
as far as they fit into 64 bits, the rest counts as zeros, and the power of ten is applied
to the rounded significand, so that the result may be off by its last digit.
-/

namespace FileRoutes.Json

/-- A number as it is read. -/
inductive Number where
  /-- An integer that fits into 64 bits. -/
  | integer (value : Int)
  /-- Any other number. -/
  | float (value : Binary64)
deriving DecidableEq, Inhabited

/-- The bound of the integers that fit into 64 bits without a sign. -/
def unsignedBound : Nat := Nat.pow 2 64

/-- The bound of the exponents that are read. -/
def exponentBound : Nat := Nat.pow 2 31

/-- The greatest power of ten that is a floating-point number. -/
def greatestPower : Nat := 308

/-- How a floating-point number is shown: positionally from `0.00001` on and below
`1e16`, and otherwise with an exponent that always has its sign. -/
def floatStyle : Decimal.Style := ⟨-5, 15, true⟩

/-- What a message says was found where a number stands. -/
def Number.found : Number → Found
  | integer i => .integer i
  | float x => .float (floatStyle.text x)

/-- The zero with a sign. -/
def signedZero (negative : Bool) : Binary64 := ⟨negative, 0, Binary64.leastExponent⟩

/-- A power of ten, rounded. -/
def powerOfTen (k : Nat) : Binary64 := (Binary64.ofDecimal false 1 k).getD default

/-- The rounded product of two positive numbers, nothing where it is out of range. -/
def product (x y : Binary64) : Option Binary64 :=
  let e := x.exponent + y.exponent
  let n := x.significand * y.significand
  if 0 ≤ e then Binary64.ofRatio false (n * Nat.pow 2 e.toNat) 1
  else Binary64.ofRatio false n (Nat.pow 2 (-e).toNat)

/-- The rounded quotient of two positive numbers. -/
def quotient (x y : Binary64) : Option Binary64 :=
  let e := x.exponent - y.exponent
  if 0 ≤ e then Binary64.ofRatio false (x.significand * Nat.pow 2 e.toNat) y.significand
  else Binary64.ofRatio false x.significand (y.significand * Nat.pow 2 (-e).toNat)

/-- A number over `10 ^ k`, divided by at most the greatest power of ten at a time; `fuel`
bounds the number of divisions. -/
def dividedBy : Nat → Binary64 → Nat → Option Binary64
  | 0, x, _ => some x
  | fuel + 1, x, k =>
    if k ≤ greatestPower then quotient x (powerOfTen k)
    else do
      let y ← quotient x (powerOfTen greatestPower)
      if y.significand = 0 then return y else dividedBy fuel y (k - greatestPower)

/-- The number with a significand and a power of ten; nothing where it is out of range. -/
def floatOf (negative : Bool) (significand : Nat) (power : Int) : Option Binary64 := do
  let x ← Binary64.ofRatio false significand 1
  let y ←
    if x.significand = 0 then pure x
    else if power < 0 then dividedBy 8 x power.natAbs
    else if greatestPower < power then none
    else product x (powerOfTen power.natAbs)
  return { y with negative := negative }

/-- A run of digits taken into a significand as far as it stays below the bound: the
significand, how many digits it took, and how many were left. -/
def accumulate (bound : Nat) : Nat → Nat → List Char → Nat × Nat × Nat
  | n, taken, [] => (n, taken, 0)
  | n, taken, d :: ds =>
    let m := n * 10 + Decimal.valueOf 10 [d]
    if m < bound then accumulate bound m (taken + 1) ds else (n, taken, ds.length + 1)

namespace Reader

/-- Whether a character is a digit. -/
def isDigit (c : Char) : Bool := '0' ≤ c && c ≤ '9'

/-- Moves over a run of digits and gives them. -/
def digits : Reader (List Char) := do
  let c : Cursor ← get
  skipWhile isDigit
  return c.rest.takeWhile isDigit

/-- A floating-point number, whose power of ten has been read. -/
def float (negative : Bool) (significand : Nat) (power : Int) : Reader Number :=
  match floatOf negative significand power with
  | some x => return .float x
  | none => failHere .numberOutOfRange

/-- Moves over digits as long as the exponent they spell stays below the bound, and over the
first one that takes it to the bound; tells whether there is such a digit. `fuel` bounds the
number of digits. -/
def exponentDigits : Nat → Nat → Reader (Nat × Bool)
  | 0, e => return (e, false)
  | fuel + 1, e => do
    match ← peek with
    | some c =>
      if isDigit c then
        skip
        let next := e * 10 + Decimal.valueOf 10 [c]
        if next < exponentBound then exponentDigits fuel next else return (e, true)
      else return (e, false)
    | none => return (e, false)

/-- The sign of an exponent. -/
def exponentSign : Reader Bool := do
  match ← peek with
  | some '+' =>
    skip
    return false
  | some '-' =>
    skip
    return true
  | _ => return false

/-- The exponent ahead and the number it completes. -/
def exponentPart (negative : Bool) (significand : Nat) (power : Int) : Reader Number := do
  skip
  let down ← exponentSign
  match ← peek with
  | none => failHere .endBeforeValue
  | some c =>
    if isDigit c then
      let (e, tooLarge) ← exponentDigits (← stepBound) 0
      if tooLarge then
        if significand ≠ 0 ∧ !down then failHere .numberOutOfRange
        else
          skipWhile isDigit
          return .float (signedZero negative)
      else float negative significand (if down then power - e else power + e)
    else failAhead .invalidNumber

/-- What may follow the digits of a number: an exponent or nothing. -/
def afterDigits (negative : Bool) (significand : Nat) (power : Int) : Reader Number := do
  match ← peek with
  | some 'e' | some 'E' => exponentPart negative significand power
  | _ => float negative significand power

/-- The fraction ahead and the number it completes. -/
def fractionPart (negative : Bool) (significand : Nat) (power : Int) : Reader Number := do
  skip
  let ds ← digits
  if ds = [] then
    match ← peek with
    | some _ => failAhead .invalidNumber
    | none => failHere .endBeforeValue
  else
    let (n, taken, _) := accumulate unsignedBound significand 0 ds
    afterDigits negative n (power - taken)

/-- An integer that is over: below the 64 bits with a sign, and for a negative zero, it is a
floating-point number. -/
def wholeNumber (negative : Bool) (n : Nat) : Reader Number :=
  if !negative then return .integer n
  else if n = 0 ∨ unsignedBound / 2 < n then float true n 0
  else return .integer (-(n : Int))

/-- What may follow the digits before the point: a fraction, an exponent or nothing. `left`
digits did not fit into the significand. -/
def afterWhole (negative : Bool) (n left : Nat) : Reader Number := do
  match ← peek with
  | some '.' => fractionPart negative n left
  | some 'e' | some 'E' => exponentPart negative n left
  | _ => if left = 0 then wholeNumber negative n else float negative n left

/-- A number, its first digit ahead. -/
def unsignedNumber (negative : Bool) : Reader Number := do
  match ← peek with
  | none => failHere .endBeforeValue
  | some '0' =>
    skip
    match ← peek with
    | some c => if isDigit c then failAhead .invalidNumber else afterWhole negative 0 0
    | none => afterWhole negative 0 0
  | some c =>
    if isDigit c then
      let (n, _, left) := accumulate unsignedBound 0 0 (← digits)
      afterWhole negative n left
    else failAhead .invalidNumber

/-- A number, its sign or its first digit ahead. -/
def number : Reader Number := do
  match ← peek with
  | some '-' =>
    skip
    unsignedNumber true
  | _ => unsignedNumber false

end Reader

end FileRoutes.Json
