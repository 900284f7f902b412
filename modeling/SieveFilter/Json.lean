import SieveFilter.Text.Numeral

/-!
# JSON values

JSON documents as values, and their compact and their indented text.  A number keeps the digits it was
written with.  A string is `none` where its escapes name half of a surrogate pair, which is no character.
-/

namespace SieveFilter

/-- A JSON value; the members of an object keep their order and may repeat a key. -/
inductive Json where
  | null
  | bool (value : Bool)
  | number (literal : List Char)
  | string (text : Option String)
  | array (items : List Json)
  | object (members : List (Option String × Json))

namespace Json

open Text (Numeral.decimal Numeral.decimalInt Numeral.hex)

def ofNat (n : Nat) : Json :=
  .number (Numeral.decimal n)

def ofInt (n : Int) : Json :=
  .number (Numeral.decimalInt n)

def ofString (text : String) : Json :=
  .string (some text)

def record (members : List (String × Json)) : Json :=
  .object (members.map fun (key, value) => (some key, value))

/-- The text of a character inside a string. -/
def charText (c : Char) : List Char :=
  match c with
  | '"' => ['\\', '"']
  | '\\' => ['\\', '\\']
  | '\n' => ['\\', 'n']
  | '\r' => ['\\', 'r']
  | '\t' => ['\\', 't']
  | '\x08' => ['\\', 'b']
  | '\x0c' => ['\\', 'f']
  | c =>
    if c.toNat < 32 then
      let digits := Numeral.hex c.toNat
      ['\\', 'u'] ++ List.replicate (4 - digits.length) '0' ++ digits
    else [c]

def stringText (text : Option String) : List Char :=
  '"' :: (text.getD "").toList.flatMap charText ++ ['"']

/-- The text of a value that holds no other values. -/
def scalarText : Json → List Char
  | null => ['n', 'u', 'l', 'l']
  | bool true => ['t', 'r', 'u', 'e']
  | bool false => ['f', 'a', 'l', 's', 'e']
  | number literal => literal
  | string text => stringText text
  | _ => []

mutual

/-- The text of a value without blanks. -/
def compactChars : Json → List Char
  | array items => '[' :: compactItems items ++ [']']
  | object members => '\x7b' :: compactMembers members ++ ['\x7d']
  | value => value.scalarText

def compactItems : List Json → List Char
  | [] => []
  | [item] => item.compactChars
  | item :: rest => item.compactChars ++ ',' :: compactItems rest

def compactMembers : List (Option String × Json) → List Char
  | [] => []
  | [(key, value)] => stringText key ++ ':' :: value.compactChars
  | (key, value) :: rest => stringText key ++ ':' :: value.compactChars ++ ',' :: compactMembers rest

end

/-- The text of a value without blanks. -/
def compact (value : Json) : String :=
  String.ofList value.compactChars

/-- A new line with its indentation, two blanks a level. -/
def newLine (depth : Nat) : List Char :=
  '\n' :: List.replicate (2 * depth) ' '

mutual

/-- The text of a value with one item or member a line; empty arrays and objects take no lines. -/
def prettyChars (depth : Nat) : Json → List Char
  | array [] => ['[', ']']
  | array items => '[' :: prettyItems (depth + 1) items ++ newLine depth ++ [']']
  | object [] => ['\x7b', '\x7d']
  | object members => '\x7b' :: prettyMembers (depth + 1) members ++ newLine depth ++ ['\x7d']
  | value => value.scalarText

def prettyItems (depth : Nat) : List Json → List Char
  | [] => []
  | [item] => newLine depth ++ item.prettyChars depth
  | item :: rest => newLine depth ++ item.prettyChars depth ++ ',' :: prettyItems depth rest

def prettyMembers (depth : Nat) : List (Option String × Json) → List Char
  | [] => []
  | [(key, value)] => newLine depth ++ stringText key ++ ':' :: ' ' :: value.prettyChars depth
  | (key, value) :: rest =>
    newLine depth ++ stringText key ++ ':' :: ' ' :: value.prettyChars depth ++
      ',' :: prettyMembers depth rest

end

/-- The text of a value with indentation. -/
def pretty (value : Json) : String :=
  String.ofList (value.prettyChars 0)

end Json

end SieveFilter
