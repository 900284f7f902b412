import SieveFilter.Decimal.Quotient
import SieveFilter.Text.Numeral

/-!
# Shortest decimals

A floating-point number is written with the fewest significant digits that read back as the same number,
in positional notation without an exponent.  Of two decimals with that many digits the nearer one is
taken, and of two equally near ones the larger.
-/

namespace SieveFilter.Decimal

open Text (Numeral.decimal)

/-- A decimal number `digits * 10^power`. -/
structure Scaled where
  digits : Nat
  power : Int
  deriving DecidableEq, Repr

def Scaled.value (decimal : Scaled) : Quotient :=
  Quotient.scale ⟨decimal.digits, 1⟩ decimal.power

/-- The least and the greatest quotient that round to a positive binary number.  Below a power of two the
neighbour is half as far away as above it, unless the significands below have no smaller exponent. -/
def roundingEnds (binary : Binary) : Quotient × Quotient :=
  let m := binary.significand
  let quarter : Binary := { binary with exponent := binary.exponent - 2 }
  let isNarrow := m = Nat.pow 2 52 && -1074 < binary.exponent
  let below := if isNarrow then 4 * m - 1 else 4 * m - 2
  ({ quarter with significand := below }.magnitude, { quarter with significand := 4 * m + 2 }.magnitude)

/-- A quotient reads back as a binary number when it lies between the ends of its rounding interval; the
ends themselves read back when the significand is even. -/
def readsBack (binary : Binary) (q : Quotient) : Bool :=
  let (low, high) := roundingEnds binary
  let even := binary.significand % 2 == 0
  let fromLow := low.cmp q
  let toHigh := q.cmp high
  (fromLow == .lt || even && fromLow == .eq) && (toHigh == .lt || even && toHigh == .eq)

/-- The decimal of the given number of digits nearest to a positive binary number, if it reads back; if it
does not, the decimal next to it on the other side is tried. -/
def withDigits? (binary : Binary) (count : Nat) : Option Scaled :=
  let q := binary.magnitude
  let power := q.exponent - (count - 1 : Nat)
  let scaled := q.scale (-power)
  let nearest := scaled.roundHalfUp
  let other := if nearest = scaled.floor then nearest + 1 else scaled.floor
  ([nearest, other].map (Scaled.mk · power)).find? (readsBack binary ·.value)

/-- The first decimal of at most seventeen digits that reads back; seventeen always do. -/
def shortest (binary : Binary) : Scaled :=
  ((List.range 17).findSome? fun n => withDigits? binary (n + 1)).getD ⟨0, 0⟩

/-- A decimal in positional notation; a decimal point only if places after it are needed. -/
def positional (decimal : Scaled) : List Char :=
  let digits := Numeral.decimal decimal.digits
  if 0 ≤ decimal.power then digits ++ List.replicate decimal.power.toNat '0'
  else
    let places := (-decimal.power).toNat
    let padded := List.replicate (places + 1 - digits.length) '0' ++ digits
    padded.take (padded.length - places) ++ '.' :: padded.drop (padded.length - places)

/-- A decimal without zeros at the end of its digits. -/
def stripZeros (digits : Nat) (power : Int) : Scaled :=
  if h : 0 < digits ∧ digits % 10 = 0 then stripZeros (digits / 10) (power + 1)
  else ⟨digits, power⟩
termination_by digits
decreasing_by omega

def Value.text (value : Value) : String :=
  let signed (negative : Bool) (text : List Char) : String :=
    String.ofList (if negative then '-' :: text else text)
  match value with
  | .nan => "NaN"
  | .infinite negative => signed negative ['i', 'n', 'f']
  | .finite binary =>
    if binary.significand = 0 then signed binary.negative ['0']
    else
      let decimal := shortest binary
      signed binary.negative (positional (stripZeros decimal.digits decimal.power))

end SieveFilter.Decimal
