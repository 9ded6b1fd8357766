import FileRoutes.Decimal.Digits

/-!
# Binary floating point with 64 bits

A finite number of the format is a sign, a significand below `2 ^ 53` and a power of two.
Every number is produced by rounding an exact quotient to the nearest such number, a tie to
the even significand.

## The model

* `Binary64` — the finite numbers, with the largest significand their exponent allows.
* `ofRatio` — the nearest number to a quotient; nothing where that is out of range.
* `ofDecimal` — the nearest number to a decimal, however large its exponent is.
* `toInt?` — the integer a number is, if it is one.
* `bits` — the 64 bits that encode a number.
-/

namespace FileRoutes

/-- A finite number: `± significand * 2 ^ exponent`. -/
structure Binary64 where
  /-- Whether the sign is negative, which it may be for zero too. -/
  negative : Bool
  /-- A number below `2 ^ 53`, and at least `2 ^ 52` unless the exponent is the least. -/
  significand : Nat
  /-- The power of two; at least `-1074` and at most `971`. -/
  exponent : Int
deriving DecidableEq, Inhabited

namespace Binary64

/-- The least exponent. -/
def leastExponent : Int := -1074

/-- The greatest exponent. -/
def greatestExponent : Int := 971

/-- The quotient `num / den` over `2 ^ e`, rounded down. -/
def scaledFloor (num den : Nat) (e : Int) : Nat :=
  if 0 ≤ e then num / (den * Nat.pow 2 e.toNat) else num * Nat.pow 2 (-e).toNat / den

/-- The quotient `num / den` over `2 ^ e`, rounded to the nearest integer, a tie to even. -/
def scaledRound (num den : Nat) (e : Int) : Nat :=
  let (n, d) := if 0 ≤ e then (num, den * Nat.pow 2 e.toNat) else (num * Nat.pow 2 (-e).toNat, den)
  let q := n / d
  let r := n % d
  if 2 * r < d then q else if d < 2 * r then q + 1 else if q % 2 = 0 then q else q + 1

/-- The exponent at which the significand of `num / den` has 53 binary digits, or the least
exponent where that would be below it. -/
def exponentOf (num den : Nat) : Int :=
  let e : Int := (num.log2 : Int) - den.log2 - 53
  max leastExponent (if scaledFloor num den e < Nat.pow 2 53 then e else e + 1)

/-- The number nearest to `num / den`; nothing where it is out of range. -/
def ofRatio (negative : Bool) (num den : Nat) : Option Binary64 :=
  if num = 0 then some ⟨negative, 0, leastExponent⟩
  else
    let e := exponentOf num den
    let s := scaledRound num den e
    let (s, e) := if s = Nat.pow 2 53 then (Nat.pow 2 52, e + 1) else (s, e)
    if greatestExponent < e then none else some ⟨negative, s, e⟩

/-- The number nearest to `significand * 10 ^ exponent`. An exponent far out of range decides
the result without the power. -/
def ofDecimal (negative : Bool) (significand : Nat) (exponent : Int) : Option Binary64 :=
  let magnitude := exponent + (significand.log2 : Int) / 3
  if significand = 0 ∨ magnitude + 1 < -400 then some ⟨negative, 0, leastExponent⟩
  else if 400 < exponent + (significand.log2 : Int) / 4 then none
  else if 0 ≤ exponent then ofRatio negative (significand * Nat.pow 10 exponent.toNat) 1
  else ofRatio negative significand (Nat.pow 10 (-exponent).toNat)

/-- The number with the other sign. -/
def negate (x : Binary64) : Binary64 := { x with negative := !x.negative }

/-- The integer a number is, if it is one. -/
def toInt? (x : Binary64) : Option Int :=
  let magnitude : Option Nat :=
    if 0 ≤ x.exponent then some (x.significand * Nat.pow 2 x.exponent.toNat)
    else if x.significand % Nat.pow 2 (-x.exponent).toNat = 0 then
      some (x.significand / Nat.pow 2 (-x.exponent).toNat)
    else none
  magnitude.map fun n => if x.negative then -(n : Int) else n

/-- The 64 bits that encode a number. -/
def bits (x : Binary64) : Nat :=
  (if x.negative then Nat.pow 2 63 else 0) +
    (if x.significand < Nat.pow 2 52 then x.significand
      else (x.exponent + 1075).toNat * Nat.pow 2 52 + (x.significand - Nat.pow 2 52))

end Binary64

end FileRoutes
