import SieveFilter.Decimal.Numeral
import SieveFilter.Settings.Setting

/-!
# Reading JSON5

JSON with comments, with a comma allowed behind the last item, with keys that need no quotes, with strings in
either kind of quotes, and with hexadecimal and infinite numbers.
-/

namespace SieveFilter.Json5

open Text (Numeral.digitsFrom Numeral.readInt Numeral.readNat Numeral.maxSigned)

def isLineEnd (c : Char) : Bool :=
  c == '\n' || c == '\r' || c == '\u2028' || c == '\u2029'

/-- Blanks: line ends, the blanks of ASCII, the byte order mark and the characters of the Unicode category
`Zs`. -/
def isBlank (c : Char) : Bool :=
  isLineEnd c || c == '\t' || c == '\x0b' || c == '\x0c' || c == ' ' || c == '\u00a0' || c == '\ufeff' ||
    c == '\u1680' || '\u2000' ≤ c && c ≤ '\u200a' || c == '\u202f' || c == '\u205f' || c == '\u3000'

/-- The text behind the end of a comment between slashes and stars. -/
def afterComment? : List Char → Option (List Char)
  | '*' :: '/' :: rest => some rest
  | _ :: rest => afterComment? rest
  | [] => none

/-- The text without the blanks and comments at its start.  A comment that has no end is left in place. -/
def skipFiller : Nat → List Char → List Char
  | 0, text => text
  | fuel + 1, '/' :: '/' :: rest => skipFiller fuel (rest.dropWhile (!isLineEnd ·))
  | fuel + 1, '/' :: '*' :: rest =>
    match afterComment? rest with
    | some rest => skipFiller fuel rest
    | none => '/' :: '*' :: rest
  | fuel + 1, c :: rest => if isBlank c then skipFiller fuel rest else c :: rest
  | _, [] => []

def skip (text : List Char) : List Char :=
  skipFiller text.length text

/-- Splits off four hexadecimal digits. -/
def fourDigits? : List Char → Option (Nat × List Char)
  | a :: b :: c :: d :: rest => (Numeral.digitsFrom 16 0 [a, b, c, d]).map (·, rest)
  | _ => none

/-- The character that an escape of one character stands for. -/
def shortEscape? : Char → Option Char
  | 'b' => some '\x08'
  | 'f' => some '\x0c'
  | 'n' => some '\n'
  | 'r' => some '\r'
  | 't' => some '\t'
  | 'v' => some '\x0b'
  | '0' => some '\x00'
  | c => if c.isDigit || c == 'x' || c == 'u' || isLineEnd c then none else some c

/-- Splits off what an escape stands for, behind its backslash: nothing if it is a line end. -/
def readEscape : List Char → Option (List Char × List Char)
  | '\r' :: '\n' :: rest => some ([], rest)
  | 'x' :: a :: b :: rest =>
    (Numeral.digitsFrom 16 0 [a, b]).map fun point => ([Char.ofNat point], rest)
  | 'u' :: rest => do
    let (unit, rest) ← fourDigits? rest
    if 0xD800 ≤ unit ∧ unit < 0xDC00 then
      match rest with
      | '\\' :: 'u' :: rest =>
        let (low, rest) ← fourDigits? rest
        if 0xDC00 ≤ low ∧ low < 0xE000 then
          some ([Char.ofNat (0x10000 + (unit - 0xD800) * 0x400 + (low - 0xDC00))], rest)
        else none
      | _ => none
    else if unit.isValidChar then some ([Char.ofNat unit], rest)
    else none
  | c :: rest => if isLineEnd c then some ([], rest) else (shortEscape? c).map ([·], rest)
  | [] => none

/-- Reads the rest of a string up to its closing quote, with the characters before it in `past`, latest
first. -/
def readString (quote : Char) : Nat → List Char → List Char → Option (String × List Char)
  | 0, _, _ => none
  | _, _, [] => none
  | fuel + 1, past, c :: rest =>
    if c = quote then some (String.ofList past.reverse, rest)
    else if c = '\\' then
      match readEscape rest with
      | some (chars, rest) => readString quote fuel (chars.reverse ++ past) rest
      | none => none
    else if isLineEnd c then none
    else readString quote fuel (c :: past) rest

/-- Characters that a key without quotes begins with; those beyond ASCII count as letters. -/
def isKeyStart (c : Char) : Bool :=
  c.isAlpha || c == '$' || c == '_' || 128 ≤ c.toNat && !isBlank c

/-- Reads the rest of a key without quotes. -/
def readName (fuel : Nat) (past : List Char) (text : List Char) : Option (String × List Char) :=
  match fuel, text with
  | fuel + 1, '\\' :: 'u' :: rest =>
    match fourDigits? rest with
    | some (unit, rest) =>
      if unit.isValidChar then readName fuel (Char.ofNat unit :: past) rest else none
    | none => none
  | fuel + 1, c :: rest =>
    if isKeyStart c || past != [] && c.isDigit then readName fuel (c :: past) rest
    else if past = [] then none
    else some (String.ofList past.reverse, c :: rest)
  | _, text => if past = [] then none else some (String.ofList past.reverse, text)

/-- Splits off the key of an entry. -/
def readKey (text : List Char) : Option (String × List Char) :=
  match text with
  | '"' :: rest => readString '"' (rest.length + 1) [] rest
  | '\'' :: rest => readString '\'' (rest.length + 1) [] rest
  | text => readName (text.length + 1) [] text

def afterWord? : List Char → List Char → Option (List Char)
  | [], text => some text
  | w :: word, c :: text => if w = c then afterWord? word text else none
  | _ :: _, [] => none

/-- Splits off an exponent, if there is one. -/
def spanExponent : List Char → List Char × List Char
  | e :: rest =>
    let (sign, digits) := match rest with
      | '+' :: rest => (['+'], rest)
      | '-' :: rest => (['-'], rest)
      | rest => ([], rest)
    match digits.span Char.isDigit with
    | ([], _) => ([], e :: rest)
    | (digits, tail) => if Decimal.isExponentMark e then (e :: sign ++ digits, tail) else ([], e :: rest)
  | [] => ([], [])

/-- Splits off a decimal number without a sign: digits before a point or behind it, or both, and possibly an
exponent. -/
def spanDecimal (text : List Char) : List Char × List Char :=
  let (whole, rest) := match text with
    | '0' :: rest => (['0'], rest)
    | text => text.span Char.isDigit
  let (places, rest) := match rest with
    | '.' :: tail =>
      match tail.span Char.isDigit with
      | ([], tail') => if whole = [] then ([], rest) else (['.'], tail')
      | (digits, tail) => ('.' :: digits, tail)
    | rest => ([], rest)
  if whole = [] ∧ places = [] then ([], text)
  else
    let (exponent, rest) := spanExponent rest
    (whole ++ places ++ exponent, rest)

/-- The value of a decimal number with its sign: an integer of 64 bits, or, where it has a point or an
exponent, a finite floating-point number. -/
def ofDecimal? (literal : List Char) : Option Setting :=
  if literal.any fun c => c == '.' || Decimal.isExponentMark c then
    match Decimal.Value.read? literal with
    | some (.finite binary) => some (.number (.finite binary))
    | _ => none
  else (Numeral.readInt Numeral.maxSigned literal).toOption.map .integer

/-- Splits off a number.  A hexadecimal one has 32 bits and no sign, and no word for a number has a plus in
front. -/
def readNumber (text : List Char) : Option (Setting × List Char) :=
  let (sign, rest) := match text with
    | '+' :: rest => (['+'], rest)
    | '-' :: rest => (['-'], rest)
    | rest => ([], rest)
  match afterWord? ['I', 'n', 'f', 'i', 'n', 'i', 't', 'y'] rest, afterWord? ['N', 'a', 'N'] rest with
  | some rest, _ => if sign = ['+'] then none else some (.number (.infinite (sign = ['-'])), rest)
  | none, some rest => if sign = ['+'] then none else some (.number .nan, rest)
  | none, none =>
    match hexadecimal rest with
    | some (digits, rest) => do
      let n ← (Numeral.readNat 16 (Nat.pow 2 32 - 1) digits).toOption
      if sign = [] then some (.integer n, rest) else none
    | none =>
      match spanDecimal rest with
      | ([], _) => none
      | (literal, rest) => (ofDecimal? (sign ++ literal)).map (·, rest)
where
  hexadecimal : List Char → Option (List Char × List Char)
    | '0' :: x :: rest =>
      let (digits, rest) := rest.span fun c => (Text.Numeral.digit? 16 c).isSome
      if (x == 'x' || x == 'X') && digits != [] then some (digits, rest) else none
    | _ => none

mutual

/-- Reads a value at the front of a text. -/
def readValue : Nat → List Char → Option (Setting × List Char)
  | 0, _ => none
  | fuel + 1, text =>
    match text with
    | '"' :: rest => (readString '"' (rest.length + 1) [] rest).map fun (s, rest) => (.text s, rest)
    | '\'' :: rest => (readString '\'' (rest.length + 1) [] rest).map fun (s, rest) => (.text s, rest)
    | '[' :: rest => (readItems fuel (skip rest)).map fun (items, rest) => (.list items, rest)
    | '\x7b' :: rest =>
      (readEntries fuel (skip rest)).map fun (entries, rest) => (.ofEntries entries, rest)
    | 'n' :: rest => (afterWord? ['u', 'l', 'l'] rest).map (.nothing, ·)
    | 't' :: rest => (afterWord? ['r', 'u', 'e'] rest).map (.boolean true, ·)
    | 'f' :: rest => (afterWord? ['a', 'l', 's', 'e'] rest).map (.boolean false, ·)
    | text => readNumber text

def readItems : Nat → List Char → Option (List Setting × List Char)
  | 0, _ => none
  | _, ']' :: rest => some ([], rest)
  | fuel + 1, text =>
    match readValue fuel text with
    | none => none
    | some (item, rest) =>
      match skip rest with
      | ']' :: rest => some ([item], rest)
      | ',' :: rest => (readItems fuel (skip rest)).map fun (items, rest) => (item :: items, rest)
      | _ => none

def readEntries : Nat → List Char → Option (List (String × Setting) × List Char)
  | 0, _ => none
  | _, '\x7d' :: rest => some ([], rest)
  | fuel + 1, text =>
    match readKey text with
    | none => none
    | some (key, rest) =>
      match skip rest with
      | ':' :: rest =>
        match readValue fuel (skip rest) with
        | none => none
        | some (value, rest) =>
          match skip rest with
          | '\x7d' :: rest => some ([(key, value)], rest)
          | ',' :: rest =>
            (readEntries fuel (skip rest)).map fun (entries, rest) => ((key, value) :: entries, rest)
          | _ => none
      | _ => none

end

/-- Reads a document.  Two steps a character are enough: one for a value, one for the list it stands in. -/
def read? (chars : List Char) : Option Setting :=
  match readValue (2 * chars.length + 2) (skip chars) with
  | some (value, rest) => if skip rest = [] then some value else none
  | none => none

end SieveFilter.Json5
