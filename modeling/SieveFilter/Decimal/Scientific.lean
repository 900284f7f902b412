import SieveFilter.Decimal.Quotient

/-!
# Scientific notation with two decimals

A magnitude is written with one digit before the point, two digits after it, and an exponent that shows
its sign and at least two digits.  The last digit is rounded to the nearest, a tie to the even digit.
-/

namespace SieveFilter.Decimal

/-- Three significant digits, as a number from 100 to 999, and the exponent of the first of them. -/
def threeDigits (q : Quotient) : Nat × Int :=
  let exponent := q.exponent
  let digits := (q.scale (2 - exponent)).roundHalfEven
  if digits = 1000 then (100, exponent + 1) else (digits, exponent)

/-- A natural number in decimal, with zeros in front to make at least two digits. -/
def twoDigits (n : Nat) : String :=
  if n < 10 then s!"0{n}" else s!"{n}"

def scientificText (digits : Nat) (exponent : Int) : String :=
  let sign := if exponent < 0 then "-" else "+"
  let places := twoDigits (digits % 100)
  s!"{digits / 100}.{places}e{sign}{twoDigits exponent.natAbs}"

/-- The magnitude of a floating-point number in scientific notation. -/
def scientific (x : Float) : String :=
  match Value.ofFloat x with
  | .nan => "NaN"
  | .infinite _ => "inf"
  | .finite binary =>
    if binary.significand = 0 then scientificText 0 0
    else
      let (digits, exponent) := threeDigits binary.magnitude
      scientificText digits exponent

end SieveFilter.Decimal
