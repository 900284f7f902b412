import SieveFilter.Failure
import SieveFilter.Settings.Setting

/-!
# Addresses of settings

A value may be given to a part of a setting: behind dots stand the names in a table, in brackets the
positions in a list, which count from the end where they are negative.  Whatever is on the way and is no
table or list gives place to one.
-/

namespace SieveFilter

open Text (Numeral.maxSigned)

/-- A step from a value to a part of it. -/
inductive Step where
  | name (name : String)
  | position (index : Int)
  deriving DecidableEq, Repr

/-- The steps to a part of the settings as a whole. -/
abbrev Address := List Step

namespace Address

def isNameChar (c : Char) : Bool :=
  c.isAlphanum || c == '_' || c == '-' || c == ' '

def isBlank (c : Char) : Bool :=
  c == ' ' || c == '\t'

/-- Splits off a position and the bracket behind it. -/
def readPosition (text : List Char) : Option (Int × List Char) := do
  let text := text.dropWhile isBlank
  let (negative, text) := match text with
    | '-' :: rest => (true, rest)
    | rest => (false, rest)
  let (digits, rest) := text.span Char.isDigit
  let sign := if negative then ['-'] else []
  let index ← (Text.Numeral.readInt Numeral.maxSigned (sign ++ digits)).toOption
  match rest.dropWhile isBlank with
  | ']' :: rest => some (index, rest)
  | _ => none

/-- The steps behind the first name. -/
def readSteps : Nat → List Char → Option Address
  | _, [] => some []
  | fuel + 1, '.' :: rest =>
    let (name, rest) := rest.span isNameChar
    if name = [] then none else (readSteps fuel rest).map (.name (String.ofList name) :: ·)
  | fuel + 1, '[' :: rest =>
    match readPosition rest with
    | some (index, rest) => (readSteps fuel rest).map (.position index :: ·)
    | none => none
  | _, _ => none

/-- The address that a text stands for.  What has not the form of an address is a name as a whole. -/
def read (text : String) : Address :=
  let (root, rest) := text.toList.span isNameChar
  match root, readSteps rest.length rest with
  | _ :: _, some steps => .name (String.ofList root) :: steps
  | _, _ => [.name text]

end Address

namespace Setting

mutual

/-- A value over the one that was there before: a table adds its entries to a table, so that an empty one
takes nothing away, and any other value takes the place of the old one. -/
def mergeInto : Setting → Option Setting → Setting
  | table added, before => mergeAll added (before.getD (table []))
  | setting, _ => setting

/-- The entries of a table over a value. -/
def mergeAll : List (String × Setting) → Setting → Setting
  | [], before => before
  | (name, setting) :: rest, before =>
    let entries := before.entries
    let name := fold name
    mergeAll rest (table (put entries name (setting.mergeInto (entries.lookup name))))

end

/-- The most items that a list may have. -/
def maxItems : Nat := Nat.pow 2 24

/-- The index of a position among `length` items, if the position is not before all of them. -/
def index? (length : Nat) (position : Int) : Option Nat :=
  if 0 ≤ position then some position.toNat
  else if position.natAbs ≤ length then some (length - position.natAbs)
  else none

/-- The list with enough items for an index; nothing stands at those that are added. -/
def padded (items : List Setting) (index : Nat) : List Setting :=
  items ++ List.replicate (index + 1 - items.length) nothing

/-- Gives a value to the part of another one that an address leads to.  A position before the first item, or
one that is out of all bounds, breaks the run off. -/
def assign (setting : Setting) : Address → Setting → Except Failure Setting
  | [], _ => .ok setting
  | [.name name], before =>
    .ok (table (put before.entries name (setting.mergeInto (before.entries.lookup name))))
  | .name name :: address, before =>
    let part := (before.entries.lookup name).getD nothing
    (setting.assign address part).map fun part => table (put before.entries name part)
  | .position position :: address, before =>
    match (index? before.items.length position).filter (· < maxItems) with
    | none => .error .breakdown
    | some index =>
      let items := padded before.items index
      (setting.assign address (items.getD index nothing)).map fun part => list (items.set index part)

end Setting

end SieveFilter
