import FileRoutes.Text.Split
import FileRoutes.Toml.Node

/-!
# Numbers and dates in TOML

What a word that is no string denotes. An integer may be written in four bases, with single
underscores between its digits. A number out of range is none; how large an integer may be
is up to the caller.
-/

namespace FileRoutes.Toml

/-- Whether a character is a decimal digit. -/
def isDigit (c : Char) : Bool := '0' ≤ c && c ≤ '9'

/-- The digits of a run in a base, single underscores between them. -/
def digits? (base : Nat) (cs : List Char) : Option (List Char) :=
  let isOne (c : Char) : Bool := (Decimal.digitValue? c).any (· < base)
  let groups := Text.pieces '_' cs
  if groups.all fun g => g ≠ [] && g.all isOne then some groups.flatten else none

/-- Digits without a zero in front. -/
def plainDigits? (cs : List Char) : Option (List Char) :=
  (digits? 10 cs).filter fun ds => ds.length = 1 || ds.head? ≠ some '0'

/-- A run of characters without its sign, and whether that is a minus. -/
def unsigned : List Char → Bool × List Char
  | '+' :: cs => (false, cs)
  | '-' :: cs => (true, cs)
  | cs => (false, cs)

/-- A number with a sign. -/
def signed (negative : Bool) (n : Nat) : Int := if negative then -(n : Int) else n

/-- The integer that a word denotes. -/
def integer? (cs : List Char) : Option Int :=
  match cs with
  | '0' :: 'x' :: ds => (digits? 16 ds).map fun ds => (Decimal.valueOf 16 ds : Int)
  | '0' :: 'o' :: ds => (digits? 8 ds).map fun ds => (Decimal.valueOf 8 ds : Int)
  | '0' :: 'b' :: ds => (digits? 2 ds).map fun ds => (Decimal.valueOf 2 ds : Int)
  | _ =>
    let (negative, body) := unsigned cs
    (plainDigits? body).map fun ds => signed negative (Decimal.valueOf 10 ds)

/-- The integers that a document may hold. -/
inductive Range where
  /-- Those of 64 bits with a sign. -/
  | narrow
  /-- Those of 128 bits, with or without a sign. -/
  | wide
deriving DecidableEq, Inhabited

/-- Whether a range holds an integer. -/
def Range.holds : Range → Int → Bool
  | narrow, i => -(Nat.pow 2 63 : Int) ≤ i && i < Nat.pow 2 63
  | wide, i => -(Nat.pow 2 127 : Int) ≤ i && i < Nat.pow 2 128

/-- The characters up to the first of a kind, and those behind it if there is one. -/
def cutAt (kind : Char → Bool) (cs : List Char) : List Char × Option (List Char) :=
  match cs.dropWhile fun c => !kind c with
  | [] => (cs, none)
  | _ :: behind => (cs.takeWhile fun c => !kind c, some behind)

/-- The exponent of a number; zero where none is written. -/
def exponent? : Option (List Char) → Option Int
  | none => some 0
  | some cs =>
    let (negative, body) := unsigned cs
    (digits? 10 body).map fun ds => signed negative (Decimal.valueOf 10 ds)

/-- The digits behind the point; none where there is no point. -/
def fraction? : Option (List Char) → Option (List Char)
  | none => some []
  | some cs => digits? 10 cs

/-- The finite number that a word without its sign denotes. -/
def finite? (negative : Bool) (cs : List Char) : Option Binary64 := do
  let (mantissa, power) := cutAt (fun c => c == 'e' || c == 'E') cs
  let (whole, fraction) := cutAt (· == '.') mantissa
  if power.isNone ∧ fraction.isNone then none
  let wholeDigits ← plainDigits? whole
  let fractionDigits ← fraction? fraction
  let e ← exponent? power
  Binary64.ofDecimal negative (Decimal.valueOf 10 (wholeDigits ++ fractionDigits))
    (e - fractionDigits.length)

/-- The floating-point number that a word denotes. -/
def real? (cs : List Char) : Option Real :=
  let (negative, body) := unsigned cs
  if body = "inf".toList then some (.infinite negative)
  else if body = "nan".toList then some .nan
  else (finite? negative body).map .finite

/-! ### Dates and times -/

/-- Whether a year has a 29th of February. -/
def isLeap (year : Nat) : Bool := year % 4 = 0 && (year % 100 ≠ 0 || year % 400 = 0)

/-- The number of days of a month. -/
def daysOf (year month : Nat) : Nat :=
  if month = 2 then (if isLeap year then 29 else 28)
  else if month ∈ [4, 6, 9, 11] then 30 else 31

/-- The number that two digits spell, if it is between two bounds. -/
def pair? (least greatest : Nat) (a b : Char) : Option Nat :=
  let n := Decimal.valueOf 10 [a, b]
  if isDigit a && isDigit b && least ≤ n && n ≤ greatest then some n else none

/-- Whether ten characters are a date. -/
def isDate : List Char → Bool
  | [y₁, y₂, y₃, y₄, '-', m₁, m₂, '-', d₁, d₂] =>
    let year := [y₁, y₂, y₃, y₄]
    year.all isDigit &&
      (pair? 1 12 m₁ m₂).any fun month =>
        (pair? 1 (daysOf (Decimal.valueOf 10 year) month) d₁ d₂).isSome
  | _ => false

/-- Whether characters are the fraction of a second, if there is one. -/
def isSecondFraction : List Char → Bool
  | [] => true
  | '.' :: ds => ds ≠ [] && ds.all isDigit
  | _ => false

/-- Whether characters are seconds, if there are any. -/
def isSeconds : List Char → Bool
  | [] => true
  | ':' :: s₁ :: s₂ :: rest => (pair? 0 60 s₁ s₂).isSome && isSecondFraction rest
  | _ => false

/-- Whether characters are the time of a day. -/
def isTime : List Char → Bool
  | h₁ :: h₂ :: ':' :: m₁ :: m₂ :: rest =>
    (pair? 0 23 h₁ h₂).isSome && (pair? 0 59 m₁ m₂).isSome && isSeconds rest
  | _ => false

/-- Whether characters are a distance from the time of Greenwich. -/
def isOffset : List Char → Bool
  | ['Z'] | ['z'] => true
  | [sign, h₁, h₂, ':', m₁, m₂] =>
    (sign = '+' || sign = '-') && (pair? 0 23 h₁ h₂).isSome && (pair? 0 59 m₁ m₂).isSome
  | _ => false

/-- Whether characters are a time with or without a distance. -/
def isTimeAnywhere (cs : List Char) : Bool :=
  isTime cs || [1, 6].any fun n =>
    n ≤ cs.length && isTime (cs.take (cs.length - n)) && isOffset (cs.drop (cs.length - n))

/-- Whether a word is a date, a time, or both. -/
def isMoment (cs : List Char) : Bool :=
  isTime cs ||
    isDate (cs.take 10) &&
      match cs.drop 10 with
      | [] => true
      | c :: rest => (c = 'T' || c = 't' || c = ' ') && isTimeAnywhere rest

/-! ### Words -/

/-- What a word that is no string denotes. -/
def scalar? (range : Range) (cs : List Char) : Option Node :=
  if cs = "true".toList then some (.boolean true)
  else if cs = "false".toList then some (.boolean false)
  else if isMoment cs then some .moment
  else
    match integer? cs with
    | some i => if range.holds i then some (.integer i) else none
    | none => (real? cs).map .real

end FileRoutes.Toml
