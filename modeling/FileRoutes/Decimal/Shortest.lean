import FileRoutes.Decimal.Binary64

/-!
# The shortest decimal of a floating-point number

A number is written with the fewest digits that read back as the same number, and among
those with the digits nearest to it. All of this is exact arithmetic on quotients: the
decimals that read back as a number lie between the midpoints to its two neighbours, and
the midpoints themselves count where the significand is even.

## The model

* `Ratio` — a quotient of two natural numbers.
* `Binary64.shortest` — the digits and the power of ten.
* `Decimal.Style` — which powers of ten are written positionally.
-/

namespace FileRoutes.Decimal

/-- A quotient of two natural numbers. -/
structure Ratio where
  /-- The numerator. -/
  num : Nat
  /-- The denominator, which is positive. -/
  den : Nat

namespace Ratio

/-- `n * b ^ e`. -/
def scaled (n b : Nat) (e : Int) : Ratio :=
  if 0 ≤ e then ⟨n * Nat.pow b e.toNat, 1⟩ else ⟨n, Nat.pow b (-e).toNat⟩

/-- Whether one quotient is below another. -/
def below (x y : Ratio) : Bool := x.num * y.den < y.num * x.den

/-- Whether one quotient is at most another. -/
def atMost (x y : Ratio) : Bool := x.num * y.den ≤ y.num * x.den

/-- The greatest `n` with `n * 10 ^ k` at most the quotient. -/
def floorAt (x : Ratio) (k : Int) : Nat :=
  if 0 ≤ k then x.num / (x.den * Nat.pow 10 k.toNat) else x.num * Nat.pow 10 (-k).toNat / x.den

/-- The distance between two quotients. -/
def distance (x y : Ratio) : Ratio :=
  let a := x.num * y.den
  let b := y.num * x.den
  ⟨(a - b) + (b - a), x.den * y.den⟩

/-- The power of ten of the first digit of a positive quotient. -/
def leadingPower (x : Ratio) : Int :=
  let bits : Int := (x.num.log2 : Int) - x.den.log2
  let guess := bits * 30103 / 100000 - 2
  let candidates := (List.range 5).map fun (i : Nat) => guess + (i : Int)
  (candidates.find? fun k => x.below (scaled 1 10 (k + 1))).getD guess

end Ratio

/-- A decimal without zeros at the end of its digits: `digits * 10 ^ exponent`. -/
structure Written where
  /-- The digits as one number. -/
  digits : Nat
  /-- The power of ten. -/
  exponent : Int
deriving DecidableEq, Inhabited

/-- The decimal without zeros at the end of its digits; `fuel` bounds their number. -/
def Written.trimmed : Nat → Nat → Int → Written
  | 0, n, e => ⟨n, e⟩
  | fuel + 1, n, e => if n ≠ 0 ∧ n % 10 = 0 then trimmed fuel (n / 10) (e + 1) else ⟨n, e⟩

end FileRoutes.Decimal

namespace FileRoutes.Binary64

open Decimal

/-- The magnitude of a number. -/
def magnitude (x : Binary64) : Ratio := .scaled x.significand 2 x.exponent

/-- The midpoint to the next smaller magnitude. -/
def lowerMidpoint (x : Binary64) : Ratio :=
  if x.significand = Nat.pow 2 52 ∧ leastExponent < x.exponent then
    .scaled (4 * x.significand - 1) 2 (x.exponent - 2)
  else .scaled (2 * x.significand - 1) 2 (x.exponent - 1)

/-- The midpoint to the next greater magnitude. -/
def upperMidpoint (x : Binary64) : Ratio := .scaled (2 * x.significand + 1) 2 (x.exponent - 1)

/-- Whether a decimal reads back as the magnitude of a number. -/
def readsBack (x : Binary64) (w : Written) : Bool :=
  let y := Ratio.scaled w.digits 10 w.exponent
  if x.significand % 2 = 0 then x.lowerMidpoint.atMost y && y.atMost x.upperMidpoint
  else x.lowerMidpoint.below y && y.below x.upperMidpoint

/-- The decimal of `n` digits next to a magnitude that reads back as it, if there is one; of
two, the nearer. -/
def writtenWith? (x : Binary64) (n : Nat) : Option Written :=
  let m := x.magnitude
  let k := m.leadingPower - n + 1
  let down : Written := ⟨m.floorAt k, k⟩
  let up : Written := ⟨m.floorAt k + 1, k⟩
  let far (w : Written) : Ratio := (Ratio.scaled w.digits 10 w.exponent).distance m
  match x.readsBack down, x.readsBack up with
  | true, true => some (if (far up).below (far down) then up else down)
  | true, false => some down
  | false, true => some up
  | false, false => none

/-- The shortest decimal that reads back as the magnitude of a number. -/
def shortest (x : Binary64) : Written :=
  if x.significand = 0 then ⟨0, 0⟩
  else
    let found := (((List.range 17).map (· + 1)).findSome? x.writtenWith?).getD ⟨0, 0⟩
    Written.trimmed 20 found.digits found.exponent

end FileRoutes.Binary64

namespace FileRoutes.Decimal

/-- How a decimal is written: which powers of ten of the first digit are positional, and how
an exponent is spelled. -/
structure Style where
  /-- The least power of ten written positionally. -/
  least : Int
  /-- The greatest power of ten written positionally. -/
  greatest : Int
  /-- Whether an exponent has its sign always, or only where it is negative. -/
  signedExponent : Bool

/-- The digits of a decimal with a point behind those of the whole part. -/
def positional (w : Written) : List Char :=
  let ds := digitsOf w.digits
  if 0 ≤ w.exponent then ds ++ List.replicate w.exponent.toNat '0' ++ ['.', '0']
  else
    let places := (-w.exponent).toNat
    if places < ds.length then ds.take (ds.length - places) ++ '.' :: ds.drop (ds.length - places)
    else '0' :: '.' :: List.replicate (places - ds.length) '0' ++ ds

/-- The digits of a decimal with a point behind the first, and the power of ten of the first. -/
def exponential (signed : Bool) (w : Written) : List Char :=
  let ds := digitsOf w.digits
  let power := w.exponent + (ds.length : Int) - 1
  let fraction := ds.drop 1
  let spelledExponent :=
    (if power < 0 then ['-'] else if signed then ['+'] else []) ++ digitsOf power.natAbs
  ds.take 1 ++ (if fraction = [] then [] else '.' :: fraction) ++ 'e' :: spelledExponent

/-- The text of a floating-point number in a style. -/
def Style.text (s : Style) (x : Binary64) : String :=
  let w := x.shortest
  let power := w.exponent + ((digitsOf w.digits).length : Int) - 1
  let body := if s.least ≤ power ∧ power ≤ s.greatest then positional w
    else exponential s.signedExponent w
  String.ofList ((if x.negative then ['-'] else []) ++ body)

end FileRoutes.Decimal
