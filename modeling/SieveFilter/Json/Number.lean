import SieveFilter.Decimal.Nearest
import SieveFilter.Json

/-!
# The values of JSON numbers

A number without point and exponent is an integer as long as it has 64 bits.  Any other one is the
floating-point number that its first digits, as many as 64 bits hold, give with one multiplication or division
by a power of ten.  It is close to the number that is written, but not always the nearest one.
-/

namespace SieveFilter.Json

open Text (Numeral.maxWord Numeral.maxSigned Numeral.digitsFrom)

/-- The value of a number. -/
inductive Amount where
  | integer (n : Int)
  | number (value : Float)

/-- The number that digits continue, as far as it has 64 bits, and the digits left over. -/
def takeDigits (value : Nat) : List Char → Nat × List Char
  | [] => (value, [])
  | c :: rest =>
    match Numeral.digitsFrom 10 value [c] with
    | some next => if next ≤ Numeral.maxWord then takeDigits next rest else (value, c :: rest)
    | none => (value, c :: rest)

/-- The floating-point number nearest to a power of ten. -/
def powerOfTen (exponent : Nat) : Float :=
  .ofBits (Decimal.nearestDecimalBits 1 exponent).toUInt64

/-- A power of ten times a value, if it is not too large.  Of the powers only those up to `10^308` are
numbers, so smaller values take two divisions. -/
def scaled? (value : Float) (exponent : Int) : Option Float :=
  if value == 0 then some value
  else if 308 < exponent then none
  else if 0 ≤ exponent then
    let product := value * powerOfTen exponent.toNat
    if product.isInf then none else some product
  else if -308 ≤ exponent then some (value / powerOfTen (-exponent).toNat)
  else if -616 ≤ exponent then some (value / powerOfTen 308 / powerOfTen (-exponent - 308).toNat)
  else some 0

def signed (negative : Bool) (value : Float) : Amount :=
  .number (if negative then -value else value)

/-- The value of a number without point and exponent.  The digits after those that 64 bits hold count as
zeros, and zero with a sign is no integer. -/
def wholeAmount? (negative : Bool) (digits : List Char) : Option Amount :=
  let (n, left) := takeDigits 0 digits
  if left = [] then
    if !negative ∧ n ≤ Numeral.maxSigned then some (.integer n)
    else if negative ∧ 0 < n ∧ n ≤ Numeral.maxSigned + 1 then some (.integer (-(n : Int)))
    else some (signed negative (Decimal.ofCount n))
  else (scaled? (Decimal.ofCount n) left.length).map (signed negative)

/-- The value of a number, if it is not too large. -/
def amount? (literal : List Char) : Option Amount :=
  let (negative, text) := match literal with
    | '-' :: rest => (true, rest)
    | text => (false, text)
  let (whole, tail) := text.span Char.isDigit
  if tail = [] then wholeAmount? negative whole
  else
    let (fraction, tail) := match tail with
      | '.' :: rest => rest.span Char.isDigit
      | tail => ([], tail)
    let exponent : Int := match tail.drop 1 with
      | '-' :: digits => -((Numeral.digitsFrom 10 0 digits).getD 0 : Int)
      | '+' :: digits | digits => (Numeral.digitsFrom 10 0 digits).getD 0
    let (n, wholeLeft) := takeDigits 0 whole
    let (n, fractionLeft) := takeDigits n fraction
    let places : Int := (wholeLeft.length : Int) + fractionLeft.length - fraction.length
    (scaled? (Decimal.ofCount n) (places + exponent)).map (signed negative)

end SieveFilter.Json
