import SieveFilter.Json.Reader

/-!
# Records in JSON

A record with named fields is an object whose members may stand in any order and be joined by others, or an
array of the fields in the order of their declaration.
-/

namespace SieveFilter.Json

open Text (Numeral.readNat Numeral.readInt Numeral.maxWord Numeral.maxSigned)

/-- The value of the only member with a key. -/
def onlyMember? (members : List (Option String × Json)) (key : String) : Option Json :=
  match members.filter (·.1 == some key) with
  | [(_, value)] => some value
  | _ => none

/-- The values of the fields of a record. -/
def fields? (names : List String) : Json → Option (List Json)
  | object members =>
    if members.all (·.1.isSome) then names.mapM (onlyMember? members) else none
  | array items => if items.length = names.length then some items else none
  | _ => none

/-- A 64-bit natural number, written without sign, point or exponent. -/
def word? : Json → Option Nat
  | number literal =>
    if literal.all Char.isDigit then (Numeral.readNat 10 Numeral.maxWord literal).toOption else none
  | _ => none

/-- A signed 64-bit integer, written without point or exponent; the number `-0` is not an integer. -/
def signed? : Json → Option Int
  | number ('-' :: digits) =>
    if digits = ['0'] ∨ !digits.all Char.isDigit then none
    else (Numeral.readInt Numeral.maxSigned ('-' :: digits)).toOption
  | number literal =>
    if literal.all Char.isDigit then (Numeral.readInt Numeral.maxSigned literal).toOption else none
  | _ => none

def bool? : Json → Option Bool
  | bool value => some value
  | _ => none

/-- The name of a choice: a string, or an object whose only member has the name for its key and the value
`null`. -/
def choice? : Json → Option String
  | string name => name
  | object [(name, null)] => name
  | _ => none

end SieveFilter.Json
