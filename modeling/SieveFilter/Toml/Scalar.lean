import SieveFilter.Decimal.Numeral
import SieveFilter.Toml

/-!
# TOML scalars

The values that are written as one word without quotes: truth values, integers and floating-point numbers.
Underscores may group digits; each of them stands between two digits.
-/

namespace SieveFilter.Toml

open Text (Numeral.digitsFrom Numeral.maxSigned)
open Decimal (splitSign isExponentMark)

/-- The characters without their underscores, each of which stands between two others; `inside` tells that
another character stands in front. -/
def ungroup (inside : Bool) : List Char → Option (List Char)
  | [] => if inside then some [] else none
  | '_' :: rest => if inside then ungroup false rest else none
  | c :: rest => (ungroup true rest).map (c :: ·)

/-- The number of characters and the value of grouped digits. -/
def grouped? (radix : Nat) (text : List Char) : Option (Nat × Nat) := do
  let digits ← ungroup false text
  return (digits.length, ← Numeral.digitsFrom radix 0 digits)

/-- The value of grouped decimal digits without a zero in front of others. -/
def whole? (text : List Char) : Option Nat := do
  let (length, n) ← grouped? 10 text
  if text.head? = some '0' ∧ length ≠ 1 then none else some n

/-- An integer of 64 bits: hexadecimal, octal or binary after a zero and a letter, else decimal and
possibly with a sign. -/
def integer? (word : List Char) : Option Int :=
  let bounded (value : Option (Nat × Nat)) : Option Int := do
    let (_, n) ← value
    if n ≤ Numeral.maxSigned then some n else none
  match word with
  | '0' :: 'x' :: digits => bounded (grouped? 16 digits)
  | '0' :: 'o' :: digits => bounded (grouped? 8 digits)
  | '0' :: 'b' :: digits => bounded (grouped? 2 digits)
  | word => do
    let (negative, digits) := splitSign word
    let n ← whole? digits
    if negative then if n ≤ Numeral.maxSigned + 1 then some (-(n : Int)) else none
    else if n ≤ Numeral.maxSigned then some n
    else none

/-- The exponent that grouped digits with or without a sign stand for. -/
def exponent? (text : List Char) : Option Int := do
  let (negative, digits) := splitSign text
  let (_, n) ← grouped? 10 digits
  return if negative then -(n : Int) else n

/-- A floating-point number: infinity, a word for what is no number, or digits with decimal places or an
exponent.  Digits that stand for more than the largest number are refused, unless a minus stands in front. -/
def number? (word : List Char) : Option Decimal.Value := do
  let (negative, rest) := splitSign word
  if rest = ['i', 'n', 'f'] then some (.infinite negative)
  else if rest = ['n', 'a', 'n'] then some .nan
  else
    let (mantissa, tail) := rest.span fun c => !isExponentMark c
    let (front, places) := mantissa.span (· != '.')
    let whole ← whole? front
    let (length, fraction) ← match places with
      | [] => some (0, 0)
      | _ :: digits => grouped? 10 digits
    let exponent ← match tail with
      | [] => if places = [] then none else some 0
      | _ :: digits => exponent? digits
    match Decimal.Value.nearest negative (whole * Nat.pow 10 length + fraction) (exponent - length) with
    | .infinite false => none
    | value => some value

/-- The value of a word without quotes. -/
def Value.ofWord? (word : List Char) : Option Value :=
  if word = ['t', 'r', 'u', 'e'] then some (.boolean true)
  else if word = ['f', 'a', 'l', 's', 'e'] then some (.boolean false)
  else
    match integer? word with
    | some n => some (.integer n)
    | none => (number? word).map .number

end SieveFilter.Toml
