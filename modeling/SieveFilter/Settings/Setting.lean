import SieveFilter.Cost
import SieveFilter.Decimal.Shortest

/-!
# Given values of settings

What a file or the environment can say about a setting, and its reading as a count, a flag, a text or a
cost policy.  The readings are generous: a number may be given as a text, and a flag as a number.
-/

namespace SieveFilter

open Text (Numeral.readNat Numeral.maxWord Numeral.decimalInt)

/-- The natural number of 64 bits nearest to a value; of two equally near ones the larger. -/
def Decimal.Value.nearestWord : Decimal.Value → Nat
  | .nan => 0
  | .infinite negative => if negative then 0 else Numeral.maxWord
  | .finite binary =>
    if binary.negative then 0 else min binary.magnitude.roundHalfUp Numeral.maxWord

/-- A value is zero if it is finite and has no significant digit. -/
def Decimal.Value.isZero : Decimal.Value → Bool
  | .finite binary => binary.significand == 0
  | _ => false

/-- A value that a setting is given.  No setting takes a list or, but for the cost policy, a table; they are
kept whole because later values may be placed in them. -/
inductive Setting where
  | nothing
  | integer (n : Int)
  | number (value : Decimal.Value)
  | boolean (b : Bool)
  | text (text : String)
  | list (items : List Setting)
  | table (entries : List (String × Setting))

namespace Setting

instance : Inhabited Setting := ⟨nothing⟩

/-- A name as it counts, in small letters.  The only letter outside ASCII whose small letter is in ASCII is
the sign of the kelvin; of the others none belongs to the name of a setting. -/
def fold (name : String) : String :=
  name.map fun c => if c = '\u212a' then 'k' else c.toLower

def items : Setting → List Setting
  | list items => items
  | _ => []

def entries : Setting → List (String × Setting)
  | table entries => entries
  | _ => []

/-- Puts a value in the place that a name has in a table. -/
def put (entries : List (String × Setting)) (name : String) (setting : Setting) :
    List (String × Setting) :=
  (name, setting) :: entries.filter (·.1 != name)

/-- The table of entries; of those with one name the last one counts. -/
def ofEntries (entries : List (String × Setting)) : Setting :=
  table (entries.foldl (fun table (name, setting) => put table name setting) [])

/-- The truth value that a word stands for, in letters of either case. -/
def truth? (word : String) : Option Bool :=
  match word.toLower with
  | "true" | "on" | "yes" => some true
  | "false" | "off" | "no" => some false
  | _ => none

/-- The count that a text stands for. -/
def countOfText? (text : String) : Option Nat :=
  match truth? text with
  | some b => some b.toNat
  | none => (Numeral.readNat 10 Numeral.maxWord text.toList).toOption

def word? : Setting → Option Nat
  | integer n => if n < 0 then none else some n.toNat
  | number value => some value.nearestWord
  | boolean b => some b.toNat
  | text words => countOfText? words
  | nothing | list _ | table _ => none

/-- The setting as a count of at most `bound`. -/
def count? (bound : Nat) (setting : Setting) : Option Nat :=
  setting.word?.filter (· ≤ bound)

def flag? : Setting → Option Bool
  | integer n => some (n != 0)
  | number value => some !value.isZero
  | boolean b => some b
  | text "1" => some true
  | text "0" => some false
  | text words => truth? words
  | nothing | list _ | table _ => none

def text? : Setting → Option String
  | integer n => some (String.ofList (Numeral.decimalInt n))
  | number value => some value.text
  | boolean b => some (if b then "true" else "false")
  | text words => some words
  | nothing | list _ | table _ => none

/-- The setting as a cost policy: its name in letters of either case, or a table of that one name. -/
def policy? : Setting → Option CostPolicy
  | text name | table [(name, _)] => CostPolicy.ofName? "_" (fold name)
  | _ => none

end Setting

end SieveFilter
