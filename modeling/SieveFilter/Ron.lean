import SieveFilter.Decimal.Numeral
import SieveFilter.Settings.Setting

/-!
# Reading RON

Records are written in parentheses with names in front of their values, maps in braces with values for keys,
and lists in brackets; a record may have a name of its own, which does not count.  A comma may follow the last
item of each of them.
-/

namespace SieveFilter.Ron

open Text (Numeral.digitsFrom Numeral.maxWord Numeral.maxSigned)

def isBlank (c : Char) : Bool :=
  c == ' ' || c == '\t' || c == '\n' || c == '\r'

/-- The text behind the end of a comment between slashes and stars, in which there may be others; `depth` of
them are open. -/
def afterComment? : Nat → List Char → Option (List Char)
  | depth, '/' :: '*' :: rest => afterComment? (depth + 1) rest
  | depth, '*' :: '/' :: rest => if depth ≤ 1 then some rest else afterComment? (depth - 1) rest
  | depth, _ :: rest => afterComment? depth rest
  | _, [] => none

/-- The text without the blanks and comments at its start.  A comment that has no end is left in place. -/
def skipFiller : Nat → List Char → List Char
  | 0, text => text
  | fuel + 1, '/' :: '/' :: rest => skipFiller fuel (rest.dropWhile (· != '\n'))
  | fuel + 1, '/' :: '*' :: rest =>
    match afterComment? 1 rest with
    | some rest => skipFiller fuel rest
    | none => '/' :: '*' :: rest
  | fuel + 1, c :: rest => if isBlank c then skipFiller fuel rest else c :: rest
  | _, [] => []

def skip (text : List Char) : List Char :=
  skipFiller text.length text

def isNameStart (c : Char) : Bool :=
  c.isAlpha || c == '_'

def isNameChar (c : Char) : Bool :=
  c.isAlphanum || c == '_'

def isRawChar (c : Char) : Bool :=
  isNameChar c || c == '.' || c == '+' || c == '-'

def readName (text : List Char) : Option (String × List Char) :=
  match text with
  | 'r' :: '"' :: _ => none
  | 'r' :: '#' :: rest =>
    match rest.span isRawChar with
    | ([], _) => none
    | (name, rest) => some (String.ofList name, rest)
  | c :: _ =>
    if isNameStart c then
      let (name, rest) := text.span isNameChar
      some (String.ofList name, rest)
    else none
  | [] => none

/-- The character that an escape of one character stands for. -/
def shortEscape? : Char → Option Char
  | '\'' => some '\''
  | '"' => some '"'
  | '\\' => some '\\'
  | 'n' => some '\n'
  | 'r' => some '\r'
  | 't' => some '\t'
  | '0' => some '\x00'
  | _ => none

/-- Splits off the character that an escape stands for, behind its backslash. -/
def readEscape : List Char → Option (Char × List Char)
  | 'x' :: a :: b :: rest =>
    (Numeral.digitsFrom 16 0 [a, b]).map fun point => (Char.ofNat point, rest)
  | 'u' :: '\x7b' :: rest =>
    match rest.span (· != '\x7d') with
    | (digits, '\x7d' :: rest) =>
      if digits = [] ∨ 6 < digits.length then none
      else
        match Numeral.digitsFrom 16 0 digits with
        | some point => if point.isValidChar then some (Char.ofNat point, rest) else none
        | none => none
    | _ => none
  | c :: rest => (shortEscape? c).map (·, rest)
  | [] => none

/-- Reads the rest of a string up to its closing quote, with the characters before it in `past`, latest
first. -/
def readString : Nat → List Char → List Char → Option (String × List Char)
  | 0, _, _ => none
  | _, _, [] => none
  | _, past, '"' :: rest => some (String.ofList past.reverse, rest)
  | fuel + 1, past, '\\' :: rest =>
    match readEscape rest with
    | some (c, rest) => readString fuel (c :: past) rest
    | none => none
  | fuel + 1, past, c :: rest => readString fuel (c :: past) rest

/-- Reads the rest of a string without escapes, which ends at a quote with as many number signs behind it as
stand in front of its first one. -/
def readRaw (signs : List Char) (past : List Char) : List Char → Option (String × List Char)
  | [] => none
  | c :: rest =>
    if c = '"' ∧ rest.take signs.length = signs then
      some (String.ofList past.reverse, rest.drop signs.length)
    else readRaw signs (c :: past) rest

/-- Splits off a string or a single character. -/
def readText : List Char → Option (String × List Char)
  | '"' :: rest => readString (rest.length + 1) [] rest
  | 'r' :: rest =>
    match rest.span (· == '#') with
    | (signs, '"' :: rest) => readRaw signs [] rest
    | _ => none
  | '\'' :: '\\' :: rest =>
    match readEscape rest with
    | some (c, '\'' :: rest) => some (String.singleton c, rest)
    | _ => none
  | '\'' :: c :: '\'' :: rest => some (String.singleton c, rest)
  | _ => none

/-- The integer that digits of a radix stand for, with or without underscores between or behind them. -/
def whole? (radix : Nat) (digits : List Char) : Option Nat :=
  if digits.head? = some '_' then none
  else
    match digits.filter (· != '_') with
    | [] => none
    | digits => Numeral.digitsFrom radix 0 digits

/-- Characters of floating-point numbers. -/
def isFloatChar (c : Char) : Bool :=
  c.isDigit || Decimal.isExponentMark c || c == '.' || c == '+' || c == '-' || c == '_'

/-- Characters of integers, digits of all radixes. -/
def isIntChar (c : Char) : Bool :=
  (Text.Numeral.digit? 16 c).isSome || c == '_'

/-- Splits off an integer without sign. -/
def readWhole (text : List Char) : Option (Nat × List Char) :=
  let (radix, digits) := match text with
    | '0' :: 'x' :: rest => (16, rest)
    | '0' :: 'b' :: rest => (2, rest)
    | '0' :: 'o' :: rest => (8, rest)
    | rest => (10, rest)
  let (digits, rest) := digits.span isIntChar
  (whole? radix digits).map (·, rest)

/-- Splits off an integer that has 64 bits.  One without sign that takes all of them counts as a
floating-point number. -/
def readInteger (text : List Char) : Option (Setting × List Char) :=
  match text with
  | '-' :: rest => do
    let (n, rest) ← readWhole rest
    if n ≤ Numeral.maxSigned + 1 then some (.integer (-(n : Int)), rest) else none
  | '+' :: rest => do
    let (n, rest) ← readWhole rest
    if n ≤ Numeral.maxSigned then some (.integer n, rest) else none
  | rest => do
    let (n, rest) ← readWhole rest
    if n ≤ Numeral.maxSigned then some (.integer n, rest)
    else if n ≤ Numeral.maxWord then some (.number (.nearest false n 0), rest)
    else none

/-- Splits off a floating-point number. -/
def readFloat (text : List Char) : Option (Setting × List Char) :=
  let (sign, rest) := Decimal.splitSign text
  match readName rest with
  | some ("inf", rest) => some (.number (.infinite sign), rest)
  | some ("NaN", rest) => some (.number .nan, rest)
  | _ =>
    let (word, rest) := text.span isFloatChar
    if word.contains '_' then none else (Decimal.Value.read? word).map fun value => (.number value, rest)

/-- Splits off a number.  It is tried as an integer first, unless characters of floating-point numbers reach
further than those of integers. -/
def readNumber (text : List Char) : Option (Setting × List Char) :=
  let unsigned := (Decimal.splitSign text).2
  let reach (p : Char → Bool) := (unsigned.takeWhile p).length
  if reach isIntChar < reach isFloatChar then readFloat text
  else (readInteger text).orElse fun _ => readFloat text

/-- Whether a name and a colon follow, as at the start of a record. -/
def startsRecord (text : List Char) : Bool :=
  match readName text with
  | some (_, rest) => (skip rest).head? == some ':'
  | none => false

/-- The word at the front of a text that stands for a value, and the rest. -/
def readWord (text : List Char) : Option (Setting × List Char) :=
  match text with
  | '-' :: rest | rest =>
    let negative := text.head? == some '-'
    let (word, rest) := rest.span isNameChar
    match String.ofList word, negative with
    | "true", false => some (.boolean true, rest)
    | "false", false => some (.boolean false, rest)
    | "None", false => some (.nothing, rest)
    | "NaN", false => some (.number .nan, rest)
    | "inf", negative => some (.number (.infinite negative), rest)
    | _, _ => none

mutual

/-- Reads a value at the front of a text, in which values lie at most `depth` deep. -/
def readValue (depth : Nat) : Nat → List Char → Option (Setting × List Char)
  | 0, _ => none
  | fuel + 1, text =>
    match readWord text with
    | some found => some found
    | none =>
      match text with
      | '(' :: ')' :: rest => some (.nothing, rest)
      | '(' :: rest => readGroup depth fuel (skip rest)
      | '[' :: rest => (readItems depth ']' fuel (skip rest)).map fun (items, rest) => (.list items, rest)
      | '\x7b' :: rest =>
        (readEntries depth '\x7d' fuel (skip rest)).map fun (entries, rest) => (.ofEntries entries, rest)
      | '"' :: _ | '\'' :: _ => (readText text).map fun (words, rest) => (.text words, rest)
      | text =>
        match readName text with
        | some ("Some", rest) =>
          match skip rest with
          | '(' :: rest => if depth = 0 then none else readOptional (depth - 1) fuel (skip rest)
          | _ => none
        | some (_, rest) =>
          match skip rest with
          | '(' :: rest => readGroup depth fuel (skip rest)
          | rest => some (.nothing, rest)
        | none =>
          match text with
          | 'r' :: _ => (readText text).map fun (words, rest) => (.text words, rest)
          | text => readNumber text

/-- Reads what is given in an optional value, up to its closing parenthesis. -/
def readOptional (depth : Nat) : Nat → List Char → Option (Setting × List Char)
  | 0, _ => none
  | fuel + 1, text =>
    match readValue depth fuel text with
    | none => none
    | some (value, rest) =>
      match skip rest with
      | ')' :: rest => some (value, rest)
      | ',' :: rest =>
        match skip rest with
        | ')' :: rest => some (value, rest)
        | _ => none
      | _ => none

/-- Reads a record or a list up to its closing parenthesis. -/
def readGroup (depth : Nat) : Nat → List Char → Option (Setting × List Char)
  | 0, _ => none
  | fuel + 1, text =>
    if startsRecord text then
      (readEntries depth ')' fuel text).map fun (entries, rest) => (.ofEntries entries, rest)
    else (readItems depth ')' fuel text).map fun (items, rest) => (.list items, rest)

def readItems (depth : Nat) (last : Char) : Nat → List Char → Option (List Setting × List Char)
  | 0, _ => none
  | fuel + 1, text =>
    if text.head? = some last then some ([], text.tail)
    else if depth = 0 then none
    else
      match readValue (depth - 1) fuel text with
      | none => none
      | some (item, rest) =>
        match skip rest with
        | ',' :: rest =>
          (readItems depth last fuel (skip rest)).map fun (items, rest) => (item :: items, rest)
        | rest => if rest.head? = some last then some ([item], rest.tail) else none

/-- Reads the entries of a record or a map up to the sign that ends it.  The keys of a map are strings. -/
def readEntries (depth : Nat) (last : Char) :
    Nat → List Char → Option (List (String × Setting) × List Char)
  | 0, _ => none
  | fuel + 1, text =>
    if text.head? = some last then some ([], text.tail)
    else if depth = 0 then none
    else
      match if last = ')' then readName text else readText text with
      | none => none
      | some (key, rest) =>
        match skip rest with
        | ':' :: rest =>
          match readValue (depth - 1) fuel (skip rest) with
          | none => none
          | some (value, rest) =>
            match skip rest with
            | ',' :: rest =>
              (readEntries depth last fuel (skip rest)).map fun (entries, rest) =>
                ((key, value) :: entries, rest)
            | rest => if rest.head? = some last then some ([(key, value)], rest.tail) else none
        | _ => none

end

/-- The rest of a text after a word at its front. -/
def afterWord? : List Char → List Char → Option (List Char)
  | [], text => some text
  | w :: word, c :: text => if w = c then afterWord? word text else none
  | _ :: _, [] => none

/-- The names of the extensions that a document may ask for.  None of them makes a difference to its
value. -/
def extensions : List String := ["implicit_some", "unwrap_newtypes", "unwrap_variant_newtypes"]

/-- Reads the names of extensions up to the parenthesis and the bracket that end them. -/
def readExtensions : Nat → List Char → Option (List Char)
  | 0, _ => none
  | fuel + 1, text =>
    match readName (skip text) with
    | some (name, rest) =>
      if !extensions.contains name then none
      else
        match skip rest with
        | ',' :: rest =>
          match skip rest with
          | ')' :: rest => closed (skip rest)
          | rest => readExtensions fuel rest
        | ')' :: rest => closed (skip rest)
        | _ => none
    | none => none
where
  closed : List Char → Option (List Char)
    | ']' :: rest => some rest
    | _ => none

/-- The text behind the extensions that a document asks for. -/
def afterExtensions? : Nat → List Char → Option (List Char)
  | 0, _ => none
  | fuel + 1, text =>
    match skip text with
    | '#' :: rest => do
      let rest ← afterWord? ['!'] (skip rest)
      let rest ← afterWord? ['['] (skip rest)
      let rest ← afterWord? ['e', 'n', 'a', 'b', 'l', 'e'] (skip rest)
      let rest ← afterWord? ['('] (skip rest)
      let rest ← readExtensions (rest.length + 1) rest
      afterExtensions? fuel rest
    | text => some text

/-- Values lie at most this deep in others. -/
def maxDepth : Nat := 128

/-- Reads a document.  Three steps a character are enough: one for a value, one for the group it is, and one
for the list that it stands in. -/
def read? (chars : List Char) : Option Setting := do
  let text ← afterExtensions? (chars.length + 1) chars
  let (value, rest) ← readValue maxDepth (3 * text.length + 3) text
  if skip rest = [] then some value else none

end SieveFilter.Ron
