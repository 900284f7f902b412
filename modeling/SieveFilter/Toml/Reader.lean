import SieveFilter.Toml.Moment
import SieveFilter.Toml.Scalar

/-!
# Reading TOML

Each part of the reader takes the characters it understands from the front of the text and gives back the
others.  How deep values may lie in each other is bounded, and so is the number of parts of a key.
-/

namespace SieveFilter.Toml

open Text (Numeral.digitsFrom)

def isBlank (c : Char) : Bool :=
  c == ' ' || c == '\t'

def skipBlanks (text : List Char) : List Char :=
  text.dropWhile isBlank

/-- Characters that may stand in comments and strings: no control characters but the tabulator. -/
def isPlain (c : Char) : Bool :=
  c == '\t' || 32 ≤ c.toNat && c.toNat != 127

/-- The text after a line end, or the end of the text. -/
def afterLineEnd? : List Char → Option (List Char)
  | [] => some []
  | '\n' :: rest => some rest
  | '\r' :: '\n' :: rest => some rest
  | _ => none

/-- The text after the rest of a line that holds at most blanks and a comment. -/
def endLine? (text : List Char) : Option (List Char) :=
  match skipBlanks text with
  | '#' :: rest => afterLineEnd? (rest.dropWhile isPlain)
  | rest => afterLineEnd? rest

/-- The text without the blanks, line ends and comments at its start; `comment` tells that it starts within
a comment. -/
def skipFiller (comment : Bool) : List Char → List Char
  | [] => []
  | '\n' :: rest => skipFiller false rest
  | '\r' :: '\n' :: rest => skipFiller false rest
  | c :: rest =>
    if comment && isPlain c || isBlank c then skipFiller comment rest
    else if c == '#' then skipFiller true rest
    else c :: rest

/-- The character of a code point in hexadecimal digits. -/
def charOfDigits? (digits : List Char) : Option Char := do
  let point ← Numeral.digitsFrom 16 0 digits
  if point.isValidChar then some (Char.ofNat point) else none

/-- The character that a one-letter escape stands for. -/
def shortEscape? : Char → Option Char
  | 'b' => some '\x08'
  | 't' => some '\t'
  | 'n' => some '\n'
  | 'f' => some '\x0c'
  | 'r' => some '\r'
  | '"' => some '"'
  | '\\' => some '\\'
  | _ => none

/-- Splits off the character of an escape behind its backslash. -/
def readEscape : List Char → Option (Char × List Char)
  | 'u' :: a :: b :: c :: d :: rest => (charOfDigits? [a, b, c, d]).map (·, rest)
  | 'U' :: a :: b :: c :: d :: e :: f :: g :: h :: rest =>
    (charOfDigits? [a, b, c, d, e, f, g, h]).map (·, rest)
  | c :: rest => (shortEscape? c).map (·, rest)
  | [] => none

/-- Reads the rest of a string with escapes up to its closing quote, with the characters before it in
`past`, latest first. -/
def readString (fuel : Nat) (past : List Char) (text : List Char) : Option (String × List Char) :=
  match fuel, text with
  | 0, _ => none
  | _, [] => none
  | fuel + 1, c :: rest =>
    if c = '"' then some (String.ofList past.reverse, rest)
    else if c = '\\' then
      match readEscape rest with
      | some (c, rest) => readString fuel (c :: past) rest
      | none => none
    else if isPlain c then readString fuel (c :: past) rest
    else none

/-- Reads the rest of a string without escapes up to its closing quote. -/
def readLiteral (text : List Char) : Option (String × List Char) :=
  match text.span fun c => isPlain c && c != '\'' with
  | (content, '\'' :: rest) => some (String.ofList content, rest)
  | _ => none

/-- The text after a line end. -/
def afterBreak? : List Char → Option (List Char)
  | [] => none
  | text => afterLineEnd? text

/-- The text of the next line that is not blank, behind a backslash at the end of a line. -/
def joinLines? (text : List Char) : Option (List Char) :=
  (afterBreak? (skipBlanks text)).map skipLines
where
  skipLines : List Char → List Char
    | '\n' :: rest => skipLines rest
    | '\r' :: '\n' :: rest => skipLines rest
    | c :: rest => if isBlank c then skipLines rest else c :: rest
    | [] => []

/-- Splits off up to two quotes behind the three that end a string of several lines.  They belong to the
string. -/
def lastQuotes (quote : Char) : List Char → List Char × List Char
  | a :: b :: rest =>
    if a = quote ∧ b = quote then ([a, b], rest)
    else if a = quote then ([a], b :: rest)
    else ([], a :: b :: rest)
  | [a] => if a = quote then ([a], []) else ([], [a])
  | [] => ([], [])

/-- Reads the rest of a string of several lines up to its three closing quotes, with the characters before
it in `past`, latest first.  Only double quotes let a backslash stand for something else. -/
def readLines (quote : Char) (fuel : Nat) (past : List Char) (text : List Char) :
    Option (String × List Char) :=
  match fuel, text with
  | 0, _ => none
  | _, [] => none
  | fuel + 1, '\n' :: rest | fuel + 1, '\r' :: '\n' :: rest => readLines quote fuel ('\n' :: past) rest
  | fuel + 1, c :: rest =>
    if c = quote then
      if rest.take 2 = [quote, quote] then
        let (last, rest) := lastQuotes quote (rest.drop 2)
        some (String.ofList (past.reverse ++ last), rest)
      else readLines quote fuel (c :: past) rest
    else if c = '\\' ∧ quote = '"' then
      match joinLines? rest, readEscape rest with
      | some rest, _ => readLines quote fuel past rest
      | none, some (c, rest) => readLines quote fuel (c :: past) rest
      | none, none => none
    else if isPlain c then readLines quote fuel (c :: past) rest
    else none

/-- Splits off a string of one or of several lines behind its first quote.  A line end right behind three
opening quotes does not belong to the string. -/
def readQuoted (quote : Char) (text : List Char) : Option (String × List Char) :=
  if text.take 2 = [quote, quote] then
    let text := text.drop 2
    readLines quote (text.length + 1) [] ((afterBreak? text).getD text)
  else if quote = '"' then readString (text.length + 1) [] text
  else readLiteral text

/-- Characters of keys without quotes. -/
def isKeyChar (c : Char) : Bool :=
  c.isAlphanum || c == '_' || c == '-'

/-- Splits off one part of a key. -/
def readKeyPart : List Char → Option (String × List Char)
  | '"' :: rest => readString (rest.length + 1) [] rest
  | '\'' :: rest => readLiteral rest
  | text =>
    match text.span isKeyChar with
    | ([], _) => none
    | (part, rest) => some (String.ofList part, rest)

/-- Splits off at most `count` parts of a key, with dots between them and blanks around them. -/
def readKeyParts : Nat → List Char → Option (List String × List Char)
  | 0, _ => none
  | count + 1, text =>
    match readKeyPart (skipBlanks text) with
    | none => none
    | some (part, rest) =>
      match skipBlanks rest with
      | '.' :: rest => (readKeyParts count rest).map fun (path, rest) => (part :: path, rest)
      | rest => some ([part], rest)

/-- Values lie in fewer arrays and tables than this, and a key has fewer parts. -/
def maxDepth : Nat := 80

/-- Splits off a key. -/
def readKey (text : List Char) : Option (List String × List Char) :=
  readKeyParts (maxDepth - 1) text

def isWordChar (c : Char) : Bool :=
  c.isAlphanum || c == '_' || c == '-' || c == '+' || c == '.' || c == ':'

/-- Splits off a value that holds no other values. -/
def readScalar (text : List Char) : Option (Value × List Char) :=
  match text with
  | '"' :: rest => (readQuoted '"' rest).map fun (words, rest) => (.text words, rest)
  | '\'' :: rest => (readQuoted '\'' rest).map fun (words, rest) => (.text words, rest)
  | text =>
    match readMoment text with
    | some (words, rest) => some (.text words, rest)
    | none =>
      let (word, rest) := text.span isWordChar
      (Value.ofWord? word).map (·, rest)

mutual

/-- Reads a value that lies in fewer than `depth` others, blanks in front of it allowed. -/
def readValue (depth : Nat) : Nat → List Char → Option (Value × List Char)
  | 0, _ => none
  | fuel + 1, text =>
    match skipBlanks text with
    | '[' :: rest =>
      if depth ≤ 1 then none
      else (readItems (depth - 1) fuel rest).map fun (items, rest) => (.array items, rest)
    | '\x7b' :: rest =>
      if depth ≤ 1 then none
      else
        match skipBlanks rest with
        | '\x7d' :: rest => some (.table .closed [], rest)
        | rest =>
          (readPairs (depth - 1) fuel [] rest).map fun (entries, rest) => (.table .closed entries, rest)
    | text => readScalar text

def readItems (depth : Nat) : Nat → List Char → Option (List Value × List Char)
  | 0, _ => none
  | fuel + 1, text =>
    match skipFiller false text with
    | ']' :: rest => some ([], rest)
    | rest =>
      match readValue depth fuel rest with
      | none => none
      | some (item, rest) =>
        match skipFiller false rest with
        | ']' :: rest => some ([item], rest)
        | ',' :: rest => (readItems depth fuel rest).map fun (items, rest) => (item :: items, rest)
        | _ => none

/-- Reads keys with their values up to a closing brace. -/
def readPairs (depth : Nat) : Nat → Entries → List Char → Option (Entries × List Char)
  | 0, _, _ => none
  | fuel + 1, entries, text =>
    match readKey text with
    | some (path, '=' :: rest) =>
      match readValue depth fuel rest with
      | none => none
      | some (value, rest) =>
        match entries.assign value path with
        | none => none
        | some entries =>
          match skipBlanks rest with
          | '\x7d' :: rest => some (entries, rest)
          | ',' :: rest => readPairs depth fuel entries rest
          | _ => none
    | _ => none

end

/-- A file as far as it is read: the entries outside all tables, and the path of the table that the keys to
come belong to. -/
structure Draft where
  entries : Entries
  header : List String

/-- Opens the table of a header. -/
def Draft.open? (draft : Draft) (edit : String → Entries → Option Entries) (path : List String) :
    Option Draft := do
  let key ← path.getLast?
  let entries ← draft.entries.within (edit key) path.dropLast
  return ⟨entries, path⟩

/-- Reads one statement to the end of its line; the line may be empty. -/
def Draft.statement (draft : Draft) (text : List Char) : Option (Draft × List Char) :=
  match skipBlanks text with
  | '[' :: '[' :: rest =>
    match readKey rest with
    | some (path, ']' :: ']' :: rest) => do
      let draft ← draft.open? Entries.openElement path
      return (draft, ← endLine? rest)
    | _ => none
  | '[' :: rest =>
    match readKey rest with
    | some (path, ']' :: rest) => do
      let draft ← draft.open? Entries.openTable path
      return (draft, ← endLine? rest)
    | _ => none
  | text =>
    match endLine? text with
    | some rest => some (draft, rest)
    | none =>
      match readKey text with
      | some (path, '=' :: rest) => do
        let (value, rest) ← readValue maxDepth (2 * rest.length + 2) rest
        let entries ← draft.entries.within (Entries.assign value path) draft.header
        return (⟨entries, draft.header⟩, ← endLine? rest)
      | _ => none

/-- Reads statements up to the end of the text. -/
def Draft.statements : Nat → Draft → List Char → Option Draft
  | 0, _, _ => none
  | _, draft, [] => some draft
  | fuel + 1, draft, text =>
    match draft.statement text with
    | some (draft, rest) => Draft.statements fuel draft rest
    | none => none

/-- Reads a file, behind a byte order mark if there is one: the entries outside all tables, and the tables.
Every statement takes at least one character, so one step a character is enough. -/
def read? (chars : List Char) : Option Entries :=
  let chars := match chars with
    | '\ufeff' :: rest => rest
    | chars => chars
  (Draft.statements (chars.length + 1) ⟨[], []⟩ chars).map Draft.entries

end SieveFilter.Toml
