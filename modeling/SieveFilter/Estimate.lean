import SieveFilter.Decimal.Binary

/-!
# Estimates of the number of ideals

How many prime ideals to expect below the large prime bounds of a sieve.
-/

namespace SieveFilter.Estimate

/-- A rough count of the primes up to a bound `B`.  The factor of `B / log B` allows for combinations of
large primes that turn up before the count is reached. -/
def primesBelow (bound : Nat) : Nat :=
  if bound ≤ 1 then 0
  else
    let b := Decimal.ofCount bound
    (0.85 * b / b.log).toUInt64.toNat

/-- The large prime bound of the given number of bits, at most the largest 64-bit number. -/
def largePrimeBound (bits : Nat) : Nat :=
  if bits < 64 then Nat.pow 2 bits else Nat.pow 2 64 - 1

/-- The ideals expected on one side between its least prime and its large prime bound. -/
def side (bits least : Nat) : Nat :=
  primesBelow (largePrimeBound bits) - primesBelow least

def ideals (rationalBits algebraicBits leastRational leastAlgebraic : Nat) : Nat :=
  side rationalBits leastRational + side algebraicBits leastAlgebraic

end SieveFilter.Estimate
