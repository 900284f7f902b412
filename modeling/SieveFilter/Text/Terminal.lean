/-!
# Text without terminal controls

A text that goes to a file instead of a terminal loses what would have steered the terminal: escape sequences
and control characters, blank ones apart.  A sequence goes on until its last character, whatever stands in
it; a cancel or substitute character breaks it off, and an escape character begins another one.
-/

namespace SieveFilter.Text

/-- Where in a sequence a character stands. -/
inductive Sequence where
  | outside
  /-- Behind an escape character. -/
  | escape
  /-- Behind an escape character and marks of the kind of its sequence. -/
  | escapeMarks
  /-- In the parameters of a control sequence. -/
  | control
  /-- At the start of the parameters of a device control string. -/
  | deviceStart
  /-- In the parameters of a device control string. -/
  | deviceParameters
  /-- Behind the parameters of a device control string, in marks of its kind. -/
  | deviceMarks
  /-- In a string that a string terminator ends. -/
  | string
  /-- In a string that a bell ends. -/
  | command
  deriving DecidableEq, Repr

namespace Sequence

/-- The place behind an escape character and one more character. -/
def behindEscape (n : Nat) : Sequence :=
  if n < 0x20 ∨ n = 0x7F then .escape
  else if n < 0x30 then .escapeMarks
  else if n = 0x5B then .control
  else if n = 0x5D then .command
  else if n = 0x50 then .deviceStart
  else if n = 0x58 ∨ n = 0x5E ∨ n = 0x5F then .string
  else .outside

/-- The bytes of a character beyond ASCII include the one that ends strings. -/
def hasTerminator (c : Char) : Bool :=
  (String.singleton c).toUTF8.data.any (· == 0x9C)

/-- The place behind a character. -/
def next (place : Sequence) (c : Char) : Sequence :=
  let n := c.toNat
  if n = 0x18 ∨ n = 0x1A then .outside
  else if n = 0x1B then .escape
  else
    match place with
    | outside => outside
    | escape => if n < 0x80 then behindEscape n else escape
    | escapeMarks => if 0x30 ≤ n ∧ n < 0x7F then outside else escapeMarks
    | control => if 0x40 ≤ n ∧ n < 0x7F then outside else control
    | deviceStart =>
      if n < 0x20 ∨ 0x7F ≤ n then deviceStart
      else if n < 0x30 then deviceMarks
      else if n < 0x40 then deviceParameters
      else string
    | deviceParameters =>
      if n < 0x20 ∨ 0x7F ≤ n then deviceParameters
      else if n < 0x30 then deviceMarks
      else if n < 0x3C then deviceParameters
      else string
    | deviceMarks => if n < 0x30 ∨ 0x7F ≤ n then deviceMarks else string
    | string => if 0x80 ≤ n ∧ hasTerminator c then outside else string
    | command => if n = 7 then outside else command

/-- Blank control characters are shown as they are. -/
def isBlankControl (c : Char) : Bool :=
  c == '\t' || c == '\n' || c == '\x0c' || c == '\r'

/-- Within a sequence that is no string, a blank control character is shown, and ends the sequence. -/
def shows (place : Sequence) (c : Char) : Bool :=
  match place with
  | outside => isBlankControl c || 0x20 ≤ c.toNat && c.toNat != 0x7F
  | escape | escapeMarks | control => isBlankControl c
  | _ => false

/-- The characters of a text that are shown, from a place on. -/
def shown (place : Sequence) : List Char → List Char
  | [] => []
  | c :: rest =>
    if place.shows c then c :: shown .outside rest else shown (place.next c) rest

end Sequence

/-- The text without what would steer a terminal. -/
def withoutControls (text : String) : String :=
  String.ofList (Sequence.outside.shown text.toList)

end SieveFilter.Text
