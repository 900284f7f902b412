import SieveFilter.Text.Blank
import SieveFilter.Text.Numeral

/-!
# INI files

Lines of a key, a sign and a value, in sections that have their name in brackets on a line of its own.  All
values are texts.  A line that begins with a semicolon or a number sign in its first column is a comment; in
any other column either of them makes the file unreadable where a key is awaited, and belongs to the text
elsewhere.
-/

namespace SieveFilter.Ini

open Text (Numeral.readNat isBlank trim trimEnd)

/-- A section: its name, none in front of all named ones, and its keys with their values. -/
structure Section where
  name : Option String
  entries : List (String × String)

/-- A place in a file: the characters that follow, and the column of the first of them. -/
structure Cursor where
  rest : List Char
  column : Nat

namespace Cursor

/-- The place of text that follows on a column.  A line end stands in column zero of the next line. -/
def ahead (column : Nat) : List Char → Cursor
  | '\n' :: rest => ⟨'\n' :: rest, 0⟩
  | rest => ⟨rest, column + 1⟩

/-- The place one character on. -/
def next (cursor : Cursor) : Cursor :=
  match cursor.rest with
  | [] => cursor
  | _ :: rest => ahead cursor.column rest

/-- The place of the next character that is not blank, or the end. -/
def skipBlanks (cursor : Cursor) : Cursor :=
  go cursor.rest.length cursor
where
  go : Nat → Cursor → Cursor
    | 0, cursor => cursor
    | fuel + 1, cursor =>
      match cursor.rest with
      | c :: _ => if isBlank c then go fuel cursor.next else cursor
      | [] => cursor

end Cursor

/-- The character of an escape that is no character of its own. -/
def shortEscape : Char → Char
  | '0' => '\x00'
  | 'a' => '\x07'
  | 'b' => '\x08'
  | 't' => '\t'
  | 'r' => '\r'
  | 'n' => '\n'
  | c => c

/-- Reads an escape behind its backslash: what it stands for, and how many characters it takes.  A line end
stands for nothing, and `x` for the character with the code point of four digits. -/
def readEscape : List Char → Option (List Char × Nat)
  | [] => none
  | '\n' :: _ => some ([], 1)
  | 'x' :: a :: b :: c :: d :: _ => do
    let point ← (Numeral.readNat 16 (Nat.pow 2 32 - 1) [a, b, c, d]).toOption
    if point.isValidChar then some ([Char.ofNat point], 5) else none
  | 'x' :: _ => none
  | c :: _ => some ([shortEscape c], 1)

def skip : Nat → Cursor → Cursor
  | 0, cursor => cursor
  | n + 1, cursor => skip n cursor.next

/-- Reads the text up to a character that ends it, with the characters before it in `past`, latest first.
The end of the file ends it only where `atEnd` allows that. -/
def readUntil (ends : Char → Bool) (atEnd : Bool) :
    Nat → List Char → Cursor → Option (List Char × Cursor)
  | 0, _, _ => none
  | fuel + 1, past, cursor =>
    match cursor.rest with
    | [] => if atEnd then some (past.reverse, cursor) else none
    | c :: rest =>
      if ends c then some (past.reverse, cursor)
      else if c = '\\' then
        match readEscape rest with
        | some (chars, count) =>
          readUntil ends atEnd fuel (chars.reverse ++ past) (skip (count + 1) cursor)
        | none => none
      else readUntil ends atEnd fuel (c :: past) cursor.next

/-- Reads the text up to a character that ends it. -/
def textUntil (ends : Char → Bool) (atEnd : Bool) (cursor : Cursor) : Option (List Char × Cursor) :=
  readUntil ends atEnd (cursor.rest.length + 1) [] cursor

def isLineEnd (c : Char) : Bool :=
  c == '\n' || c == '\r'

/-- Signs between a key and its value. -/
def isSign (c : Char) : Bool :=
  c == '=' || c == ':'

/-- Blanks that do not end a line. -/
def isInnerBlank (c : Char) : Bool :=
  isBlank c && !isLineEnd c

/-- Reads a value to the end of its line.  The blanks around it do not count; a value may begin with a part
in quotes, whose blanks do count. -/
def readValue (cursor : Cursor) : Option (List Char × Cursor) :=
  let count := (cursor.rest.takeWhile isInnerBlank).length
  let cursor := skip count cursor
  match cursor.rest with
  | '"' :: _ => quoted '"' cursor
  | '\'' :: _ => quoted '\'' cursor
  | _ => (textUntil isLineEnd true cursor).map fun (text, cursor) => (trim text, cursor)
where
  quoted (quote : Char) (cursor : Cursor) : Option (List Char × Cursor) := do
    let (text, cursor) ← textUntil (· == quote) false cursor.next
    let (tail, cursor) ← textUntil isLineEnd true cursor.next
    return (text ++ trim tail, cursor)

/-- Reads the sections from a place on.  The sections read so far come latest first, the one that values are
added to in front; `key` is the key that a value is awaited for, if there is one. -/
def readSections : Nat → List Section → String → Cursor → Option (List Section)
  | 0, _, _, _ => none
  | fuel + 1, past, key, cursor =>
    let cursor := cursor.skipBlanks
    match cursor.rest with
    | [] => some past
    | c :: rest =>
      if c = ';' ∨ c = '#' then
        if 1 < cursor.column then none
        else readSections fuel past key (skip (rest.takeWhile (· != '\n')).length cursor).next
      else if c = '[' then
        match textUntil (· == ']') false cursor.next with
        | some (name, cursor) =>
          readSections fuel (⟨some (String.ofList (trim name)), []⟩ :: past) key cursor.next
        | none => none
      else if isSign c then
        match readValue cursor.next, past with
        | some (value, cursor), latest :: before =>
          if key = "" then none
          else
            let entries := latest.entries ++ [(key, String.ofList value)]
            readSections fuel (⟨latest.name, entries⟩ :: before) "" cursor
        | _, _ => none
      else
        match textUntil isSign false cursor with
        | some (name, cursor) => readSections fuel past (String.ofList (trim name)) cursor
        | none => none

/-- Reads a file: its sections in their order, the one without a name first.  Every round takes at least one
character, so one round a character is enough. -/
def read? (chars : List Char) : Option (List Section) :=
  (readSections (chars.length + 1) [⟨none, []⟩] "" (.ahead 0 chars)).map List.reverse

end SieveFilter.Ini
