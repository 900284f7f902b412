import SieveFilter.Decimal.Nearest
import SieveFilter.Text.Numeral

/-!
# Decimal numerals

Reading a floating-point number: digits with at most one point among them, at least one digit, and an
exponent if one follows; or a word for infinity or for what is not a number.  A sign may stand in front.
-/

namespace SieveFilter.Decimal

open Text (Numeral.digitsFrom)

/-- The number that at least one decimal digit stands for. -/
def digits? : List Char → Option Nat
  | [] => none
  | text => Numeral.digitsFrom 10 0 text

def splitSign : List Char → Bool × List Char
  | '-' :: rest => (true, rest)
  | '+' :: rest => (false, rest)
  | text => (false, text)

/-- The exponent that digits with or without a sign stand for. -/
def exponent? (text : List Char) : Option Int :=
  let (negative, rest) := splitSign text
  (digits? rest).map fun n => if negative then -(n : Int) else n

/-- The letter in front of an exponent. -/
def isExponentMark (c : Char) : Bool :=
  c == 'e' || c == 'E'

/-- The digits of a numeral without sign, and the power of ten behind them. -/
def parts? (text : List Char) : Option (Nat × Int) := do
  let (mantissa, tail) := text.span fun c => !isExponentMark c
  let (whole, places) := mantissa.span (· != '.')
  let fraction := places.drop 1
  let digits ← digits? (whole ++ fraction)
  let exponent ← match tail with
    | [] => some 0
    | _ :: tail => exponent? tail
  return (digits, exponent - fraction.length)

/-- The value of a numeral. -/
def Value.read? (text : List Char) : Option Value :=
  let (negative, rest) := splitSign text
  match String.ofList (rest.map Char.toLower) with
  | "inf" | "infinity" => some (.infinite negative)
  | "nan" => some .nan
  | _ => (parts? rest).map fun (digits, power) => .nearest negative digits power

end SieveFilter.Decimal
