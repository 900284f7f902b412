import SieveFilter.Text.Numeral

/-!
# Dates and times

Days of the calendar, times of day and both together, possibly with the distance from universal time.  They
count as their text in one form: a `T` stands between day and time, and fractions of a second have at most
nine digits and no zeros at their end.
-/

namespace SieveFilter.Toml

open Text (Numeral.digitsFrom)

/-- The number of days of a month. -/
def daysOf (year month : Nat) : Nat :=
  if month = 2 then
    if year % 4 = 0 ∧ (year % 100 ≠ 0 ∨ year % 400 = 0) then 29 else 28
  else if month = 4 ∨ month = 6 ∨ month = 9 ∨ month = 11 then 30
  else 31

/-- Digits that stand for a number from `least` to `most`. -/
def isCount (least most : Nat) (digits : List Char) : Bool :=
  match Numeral.digitsFrom 10 0 digits with
  | some n => least ≤ n && n ≤ most
  | none => false

/-- Splits off a day: year, month and day of the month. -/
def readDay : List Char → Option (List Char × List Char)
  | y₁ :: y₂ :: y₃ :: y₄ :: '-' :: m₁ :: m₂ :: '-' :: d₁ :: d₂ :: rest => do
    let year ← Numeral.digitsFrom 10 0 [y₁, y₂, y₃, y₄]
    let month ← Numeral.digitsFrom 10 0 [m₁, m₂]
    if isCount 1 12 [m₁, m₂] && isCount 1 (daysOf year month) [d₁, d₂] then
      some ([y₁, y₂, y₃, y₄, '-', m₁, m₂, '-', d₁, d₂], rest)
    else none
  | _ => none

/-- Splits off the fraction of a second, which may not be there. -/
def readFraction : List Char → List Char × List Char
  | '.' :: rest =>
    match rest.span Char.isDigit with
    | ([], _) => ([], '.' :: rest)
    | (digits, rest) =>
      match ((digits.take 9).reverse.dropWhile (· == '0')).reverse with
      | [] => ([], rest)
      | digits => ('.' :: digits, rest)
  | text => ([], text)

/-- Splits off a time of day; the last second of a minute may be a leap second. -/
def readTime : List Char → Option (List Char × List Char)
  | h₁ :: h₂ :: ':' :: m₁ :: m₂ :: ':' :: s₁ :: s₂ :: rest =>
    if isCount 0 23 [h₁, h₂] && isCount 0 59 [m₁, m₂] && isCount 0 60 [s₁, s₂] then
      let (fraction, rest) := readFraction rest
      some ([h₁, h₂, ':', m₁, m₂, ':', s₁, s₂] ++ fraction, rest)
    else none
  | _ => none

/-- Splits off the distance from universal time, which may not be there; no distance has the sign `+`. -/
def readOffset : List Char → List Char × List Char
  | 'Z' :: rest | 'z' :: rest => (['Z'], rest)
  | sign :: h₁ :: h₂ :: ':' :: m₁ :: m₂ :: rest =>
    if (sign == '+' || sign == '-') && isCount 0 23 [h₁, h₂] && isCount 0 59 [m₁, m₂] then
      let distance := [h₁, h₂, ':', m₁, m₂]
      let sign := if distance = ['0', '0', ':', '0', '0'] then '+' else sign
      (sign :: distance, rest)
    else ([], sign :: h₁ :: h₂ :: ':' :: m₁ :: m₂ :: rest)
  | text => ([], text)

/-- The signs that may stand between a day and a time. -/
def isDelimiter (c : Char) : Bool :=
  c == 'T' || c == 't' || c == ' '

/-- Splits off the text of a date, a time, or a date with a time.  A blank behind a date belongs to it only
if a time follows. -/
def readMoment (text : List Char) : Option (String × List Char) :=
  match readDay text with
  | none => (readTime text).map fun (time, rest) => (String.ofList time, rest)
  | some (day, rest) =>
    let time := match rest with
      | c :: rest => if isDelimiter c then readTime rest else none
      | [] => none
    match time with
    | none => some (String.ofList day, rest)
    | some (time, rest) =>
      let (offset, rest) := readOffset rest
      some (String.ofList (day ++ 'T' :: time ++ offset), rest)

end SieveFilter.Toml
