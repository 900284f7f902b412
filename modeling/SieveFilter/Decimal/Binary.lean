/-!
# Binary64 numbers as exact values

The bits of a floating-point number, taken apart into sign, significand and power of two, and the total
order of the numbers by their bits.
-/

namespace SieveFilter.Decimal

/-- A finite binary number: `(-1)^negative * significand * 2^exponent`. -/
structure Binary where
  negative : Bool
  significand : Nat
  exponent : Int
  deriving DecidableEq, Repr

/-- What a floating-point number stands for. -/
inductive Value where
  | nan
  | infinite (negative : Bool)
  | finite (binary : Binary)
  deriving DecidableEq, Repr

/-- The value of a bit pattern: one sign bit, eleven exponent bits, fifty-two significand bits. -/
def Value.ofBits (bits : Nat) : Value :=
  let negative := bits / Nat.pow 2 63 % 2 == 1
  let exponent : Nat := bits / Nat.pow 2 52 % Nat.pow 2 11
  let fraction := bits % Nat.pow 2 52
  if exponent = Nat.pow 2 11 - 1 then
    if fraction = 0 then .infinite negative else .nan
  else if exponent = 0 then .finite ⟨negative, fraction, -1074⟩
  else .finite ⟨negative, Nat.pow 2 52 + fraction, (exponent : Int) - 1075⟩

/-- The value of a floating-point number. -/
def Value.ofFloat (x : Float) : Value :=
  .ofBits x.toBits.toNat

/-- The floating-point number nearest to a count below `2^64`. -/
def ofCount (n : Nat) : Float :=
  n.toUInt64.toFloat

/-- The place of a bit pattern in the total order of floating-point numbers: those without the sign bit in the
order of their bits, those with it below them in the opposite order. -/
def orderKey (bits : UInt64) : Int :=
  if bits.toNat < Nat.pow 2 63 then bits.toNat else Nat.pow 2 63 - 1 - bits.toNat

end SieveFilter.Decimal
