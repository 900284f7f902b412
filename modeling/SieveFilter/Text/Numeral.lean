/-!
# Numerals

Reading and writing whole numbers in a radix.  A numeral is read from the left, and the first problem
met decides the error: a character that is no digit, or a digit that takes the value past its bound.
-/

namespace SieveFilter.Text

/-- The ways in which a text fails to be a numeral. -/
inductive NumeralError where
  | empty
  | badDigit
  | tooLarge
  | tooSmall
  deriving DecidableEq, Repr

def NumeralError.message : NumeralError → String
  | .empty => "cannot parse integer from empty string"
  | .badDigit => "invalid digit found in string"
  | .tooLarge => "number too large to fit in target type"
  | .tooSmall => "number too small to fit in target type"

namespace Numeral

/-- The value of an ASCII digit or letter, letters of either case counting on from ten. -/
def digitValue? (c : Char) : Option Nat :=
  if '0' ≤ c && c ≤ '9' then some (c.toNat - '0'.toNat)
  else if 'a' ≤ c && c ≤ 'z' then some (c.toNat - 'a'.toNat + 10)
  else if 'A' ≤ c && c ≤ 'Z' then some (c.toNat - 'A'.toNat + 10)
  else none

def digit? (radix : Nat) (c : Char) : Option Nat :=
  (digitValue? c).filter (· < radix)

/-- The number that digits of a radix stand for, counted on from `value`. -/
def digitsFrom (radix value : Nat) : List Char → Option Nat
  | [] => some value
  | c :: rest => (digit? radix c).bind fun d => digitsFrom radix (radix * value + d) rest

/-- Reads digits onto `value`; `overflow` is the error for a value above `bound`. -/
def readDigits
    (radix bound : Nat) (overflow : NumeralError) (value : Nat) :
    List Char → Except NumeralError Nat
  | [] => .ok value
  | c :: rest =>
    match digit? radix c with
    | none => .error .badDigit
    | some d =>
      if radix * value + d ≤ bound then
        readDigits radix bound overflow (radix * value + d) rest
      else .error overflow

/-- Reads a natural number of at most `bound`; one `+` may stand in front of the digits. -/
def readNat (radix bound : Nat) : List Char → Except NumeralError Nat
  | [] => .error .empty
  | '+' :: c :: rest => readDigits radix bound .tooLarge 0 (c :: rest)
  | text => readDigits radix bound .tooLarge 0 text

/-- Reads a decimal integer from `-(bound + 1)` to `bound`; one sign may stand in front of the digits. -/
def readInt (bound : Nat) : List Char → Except NumeralError Int
  | [] => .error .empty
  | '-' :: c :: rest =>
    (readDigits 10 (bound + 1) .tooSmall 0 (c :: rest)).map fun n => -(n : Int)
  | '+' :: c :: rest => (readDigits 10 bound .tooLarge 0 (c :: rest)).map Int.ofNat
  | text => (readDigits 10 bound .tooLarge 0 text).map Int.ofNat

/-- The largest 64-bit natural number. -/
def maxWord : Nat := Nat.pow 2 64 - 1

/-- The largest signed 64-bit integer. -/
def maxSigned : Nat := Nat.pow 2 63 - 1

def decimal (n : Nat) : List Char :=
  Nat.toDigits 10 n

def decimalInt : Int → List Char
  | .ofNat n => decimal n
  | .negSucc n => '-' :: decimal (n + 1)

/-- The lower-case hexadecimal numeral of a natural number. -/
def hex (n : Nat) : List Char :=
  Nat.toDigits 16 n

/-- The hexadecimal numeral as a string. -/
def hexText (n : Nat) : String :=
  String.ofList (hex n)

end Numeral

end SieveFilter.Text
