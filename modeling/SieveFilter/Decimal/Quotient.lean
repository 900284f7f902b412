import SieveFilter.Decimal.Binary

/-!
# Exact quotients

The magnitude of a binary number as a quotient of natural numbers, its place among the powers of ten, and
rounding to the nearest natural number.
-/

namespace SieveFilter.Decimal

/-- A quotient of two natural numbers, the second of them positive. -/
structure Quotient where
  num : Nat
  den : Nat
  deriving DecidableEq, Repr

def Binary.magnitude (binary : Binary) : Quotient :=
  ⟨binary.significand * Nat.pow 2 binary.exponent.toNat, Nat.pow 2 (-binary.exponent).toNat⟩

namespace Quotient

def scale (q : Quotient) (power : Int) : Quotient :=
  ⟨q.num * Nat.pow 10 power.toNat, q.den * Nat.pow 10 (-power).toNat⟩

/-- The number of decimal digits of a natural number; zero has one. -/
def digitCount (n : Nat) : Nat :=
  (Nat.toDigits 10 n).length

/-- The exponent of the greatest power of ten that is at most a positive quotient. -/
def exponent (q : Quotient) : Int :=
  if q.den ≤ q.num then digitCount (q.num / q.den) - 1
  else -(digitCount ((q.den - 1) / q.num) : Int)

def floor (q : Quotient) : Nat :=
  q.num / q.den

/-- The natural number nearest to the quotient; of two equally near ones the even one. -/
def roundHalfEven (q : Quotient) : Nat :=
  let below := q.num / q.den
  let rest := 2 * (q.num % q.den)
  if rest < q.den ∨ rest = q.den ∧ below % 2 = 0 then below else below + 1

/-- The natural number nearest to the quotient; of two equally near ones the larger one. -/
def roundHalfUp (q : Quotient) : Nat :=
  (2 * q.num + q.den) / (2 * q.den)

def cmp (q other : Quotient) : Ordering :=
  compare (q.num * other.den) (other.num * q.den)

end Quotient

end SieveFilter.Decimal
