import SieveFilter.Decimal.Binary

/-!
# TOML values

The values of a settings file, and the tables that its statements build up.  A key may be written once
only, a table may be opened once only, and how a table came to be decides what may be added to it.
-/

namespace SieveFilter.Toml

/-- How a table came to be. -/
inductive Origin where
  /-- It is written between braces, and nothing is added to it. -/
  | closed
  /-- It lies on the way to the table of a header. -/
  | passed
  /-- It has a header of its own. -/
  | header
  /-- It lies on the way to a dotted key. -/
  | dotted
  deriving DecidableEq, Repr

/-- The values of TOML.  An array of tables has its latest table in front. -/
inductive Value where
  | integer (n : Int)
  | number (value : Decimal.Value)
  | boolean (b : Bool)
  | text (text : String)
  | array (items : List Value)
  | table (origin : Origin) (entries : List (String × Value))
  | tables (latest : List (String × Value)) (before : List (List (String × Value)))

/-- The entries of a table in the order of their keys' appearance. -/
abbrev Entries := List (String × Value)

namespace Entries

/-- The entries with another value under a key that is there. -/
def set (entries : Entries) (key : String) (value : Value) : Entries :=
  entries.map fun entry => if entry.1 = key then (key, value) else entry

/-- Enters a value under a dotted key that is not there yet.  On the way tables are passed that dotted keys
have made or that lie on the way to the table of a header, and the latest tables of arrays of tables, but the
value goes only into a table that dotted keys have made. -/
def assign (value : Value) : List String → Entries → Option Entries
  | [], _ => none
  | [key], entries =>
    if (entries.lookup key).isSome then none else some (entries ++ [(key, value)])
  | key :: path, entries =>
    match entries.lookup key with
    | none => (assign value path []).map fun inner => entries ++ [(key, .table .dotted inner)]
    | some (.table .dotted inner) =>
      (assign value path inner).map fun inner => entries.set key (.table .dotted inner)
    | some (.table .passed inner) =>
      if path.length = 1 then none
      else (assign value path inner).map fun inner => entries.set key (.table .passed inner)
    | some (.tables latest before) =>
      if path.length = 1 then none
      else (assign value path latest).map fun latest => entries.set key (.tables latest before)
    | some _ => none

/-- Opens a table under a key; it may have been passed before, but not opened. -/
def openTable (key : String) (entries : Entries) : Option Entries :=
  match entries.lookup key with
  | none => some (entries ++ [(key, .table .header [])])
  | some (.table .passed inner) => some (entries.set key (.table .header inner))
  | some _ => none

/-- Opens a further table of an array of tables. -/
def openElement (key : String) (entries : Entries) : Option Entries :=
  match entries.lookup key with
  | none => some (entries ++ [(key, .tables [] [])])
  | some (.tables latest before) => some (entries.set key (.tables [] (latest :: before)))
  | some _ => none

/-- Edits the entries of the table that the path of a header leads to.  Tables that are not there are made,
and of an array of tables the latest one is taken. -/
def within (edit : Entries → Option Entries) : List String → Entries → Option Entries
  | [], entries => edit entries
  | key :: path, entries =>
    match entries.lookup key with
    | none => (within edit path []).map fun inner => entries ++ [(key, .table .passed inner)]
    | some (.table .closed _) => none
    | some (.table origin inner) =>
      (within edit path inner).map fun inner => entries.set key (.table origin inner)
    | some (.tables latest before) =>
      (within edit path latest).map fun latest => entries.set key (.tables latest before)
    | some _ => none

end Entries

end SieveFilter.Toml
