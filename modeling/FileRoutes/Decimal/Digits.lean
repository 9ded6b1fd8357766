/-!
# Digits

The number that a run of digits denotes in a base, and the digits of a number. Digits above
nine are letters in either case.
-/

namespace FileRoutes.Decimal

/-- The number a digit stands for; letters go on behind nine. -/
def digitValue? (c : Char) : Option Nat :=
  if '0' ≤ c ∧ c ≤ '9' then some (c.toNat - '0'.toNat)
  else if 'a' ≤ c ∧ c ≤ 'z' then some (c.toNat - 'a'.toNat + 10)
  else if 'A' ≤ c ∧ c ≤ 'Z' then some (c.toNat - 'A'.toNat + 10)
  else none

/-- The number a run of digits denotes; what is no digit counts as zero. -/
def valueOf (base : Nat) (digits : List Char) : Nat :=
  digits.foldl (fun n c => n * base + (digitValue? c).getD 0) 0

/-- The decimal digits of a number. -/
def digitsOf (n : Nat) : List Char := Nat.toDigits 10 n

/-- The decimal spelling of a number. -/
def spelled (n : Nat) : String := String.ofList (digitsOf n)

end FileRoutes.Decimal
