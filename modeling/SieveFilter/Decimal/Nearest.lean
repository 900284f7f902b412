import SieveFilter.Decimal.Quotient

/-!
# Nearest binary numbers

The floating-point number nearest to a decimal.  The quotient is brought to the grid of the significands of
its size and rounded there, a tie to the even significand; what lies past the largest number is infinite.
-/

namespace SieveFilter.Decimal

namespace Quotient

def shift (q : Quotient) (power : Int) : Quotient :=
  ⟨q.num * Nat.pow 2 power.toNat, q.den * Nat.pow 2 (-power).toNat⟩

/-- The exponent of the greatest power of two that is at most a positive quotient. -/
def binaryExponent (q : Quotient) : Int :=
  let guess := (q.num.log2 : Int) - q.den.log2
  if (q.shift (-guess)).floor = 0 then guess - 1 else guess

end Quotient

/-- The bits of positive infinity; those of greater numbers would follow. -/
def infinityBits : Nat :=
  (Nat.pow 2 11 - 1) * Nat.pow 2 52

/-- The bits of the floating-point number nearest to a positive quotient.  A significand that rounding takes
to the next power of two carries into the exponent bits, which is the number it stands for. -/
def nearestBits (q : Quotient) : Nat :=
  let exponent := max (q.binaryExponent - 52) (-1074)
  let significand := (q.shift (-exponent)).roundHalfEven
  min ((exponent + 1074).toNat * Nat.pow 2 52 + significand) infinityBits

/-- The bits of the floating-point number nearest to `digits * 10^power`.  Decimals that are far too large
or too small for a number are settled by their number of digits alone. -/
def nearestDecimalBits (digits : Nat) (power : Int) : Nat :=
  let size := (Quotient.digitCount digits : Int) + power
  if digits = 0 ∨ size < -400 then 0
  else if 400 < size then infinityBits
  else nearestBits (Quotient.scale ⟨digits, 1⟩ power)

/-- The floating-point number nearest to `digits * 10^power`, with a sign. -/
def Value.nearest (negative : Bool) (digits : Nat) (power : Int) : Value :=
  .ofBits ((if negative then Nat.pow 2 63 else 0) + nearestDecimalBits digits power)

end SieveFilter.Decimal
