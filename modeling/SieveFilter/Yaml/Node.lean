import SieveFilter.Decimal.Numeral
import SieveFilter.Failure
import SieveFilter.Settings.Setting

/-!
# YAML nodes

The values of a YAML document, and the settings that they stand for.  A mapping may have any nodes for keys,
but settings only names and integers.
-/

namespace SieveFilter.Yaml

open Text (Numeral.readInt Numeral.maxSigned Numeral.decimalInt Numeral.digit?)

/-- A value.  A floating-point number keeps the text it was written with; `invalid` is a scalar that its tag
does not fit, or an alias of what it lies in itself. -/
inductive Node where
  | null
  | invalid
  | boolean (b : Bool)
  | integer (n : Int)
  | real (text : String)
  | text (text : String)
  | sequence (items : List Node)
  | mapping (entries : List (Node × Node))

namespace Node

mutual

/-- Whether two nodes are the same. -/
def same : Node → Node → Bool
  | null, null | invalid, invalid => true
  | boolean a, boolean b => a == b
  | integer a, integer b => a == b
  | real a, real b | text a, text b => a == b
  | sequence a, sequence b => sameItems a b
  | mapping a, mapping b => sameEntries a b
  | _, _ => false

def sameItems : List Node → List Node → Bool
  | [], [] => true
  | a :: rest, b :: others => a.same b && sameItems rest others
  | _, _ => false

def sameEntries : List (Node × Node) → List (Node × Node) → Bool
  | [], [] => true
  | (a, c) :: rest, (b, d) :: others => a.same b && c.same d && sameEntries rest others
  | _, _ => false

end

/-- The words for infinity and for what is no number. -/
def realWords : List String :=
  [".inf", ".Inf", ".INF", "+.inf", "+.Inf", "+.INF", "-.inf", "-.Inf", "-.INF", ".nan", ".NaN", ".NAN"]

/-- Whether a text stands for a floating-point number, which has a digit if it is not one of the words. -/
def isReal (text : String) : Bool :=
  realWords.contains text ||
    text.toList.any Char.isDigit && (Decimal.Value.read? text.toList).isSome

/-- The integer of 64 bits that digits of a radix with or without a sign stand for. -/
def radixInt? (radix : Nat) (text : List Char) : Option Int := do
  let (negative, digits) := Decimal.splitSign text
  if digits = [] then none
  else
    let n ← Text.Numeral.digitsFrom radix 0 digits
    if negative then if n ≤ Numeral.maxSigned + 1 then some (-(n : Int)) else none
    else if n ≤ Numeral.maxSigned then some n
    else none

/-- The integer that a text stands for: hexadecimal, octal, or decimal with or without a sign. -/
def integer? (text : String) : Option Int :=
  match text.toList with
  | '0' :: 'x' :: digits => radixInt? 16 digits
  | '0' :: 'o' :: digits => radixInt? 8 digits
  | '+' :: digits => (Numeral.readInt Numeral.maxSigned digits).toOption
  | chars => (Numeral.readInt Numeral.maxSigned chars).toOption

/-- The node that a text without quotes and without a tag stands for. -/
def ofPlain (text : String) : Node :=
  match integer? text with
  | some n => .integer n
  | none =>
    match text with
    | "" | "~" | "null" => null
    | "true" => boolean true
    | "false" => boolean false
    | words =>
      match (Numeral.readInt Numeral.maxSigned words.toList).toOption with
      | some n => .integer n
      | none => if isReal words then real words else .text words

/-- The node that a text without quotes stands for under a tag of the core schema.  A tag that is not in the
schema leaves it a text. -/
def ofTagged (suffix text : String) : Node :=
  match suffix, text with
  | "bool", "true" => boolean true
  | "bool", "false" => boolean false
  | "bool", _ => invalid
  | "int", words =>
    match Numeral.readInt Numeral.maxSigned words.toList with
    | .ok n => .integer n
    | .error _ => invalid
  | "float", words => if isReal words then real words else invalid
  | "null", "~" | "null", "null" => null
  | "null", _ => invalid
  | _, words => .text words

/-- The name that a node stands for as a key. -/
def name? : Node → Option String
  | text words => some words
  | integer n => some (String.ofList (Numeral.decimalInt n))
  | _ => none

mutual

/-- The setting that a node stands for.  A key that is neither a name nor an integer breaks the run off, and
there are no settings that are infinite or no number. -/
def setting : Node → Except Failure Setting
  | null | invalid => .ok .nothing
  | boolean b => .ok (.boolean b)
  | integer n => .ok (.integer n)
  | real words =>
    match Decimal.Value.read? words.toList with
    | some value => .ok (.number value)
    | none => .error .settings
  | text words => .ok (.text words)
  | sequence items => (settings items).map .list
  | mapping entries => (settingEntries entries).map .ofEntries

def settings : List Node → Except Failure (List Setting)
  | [] => .ok []
  | item :: rest => do
    let setting ← item.setting
    return setting :: (← settings rest)

def settingEntries : List (Node × Node) → Except Failure (List (String × Setting))
  | [] => .ok []
  | (key, value) :: rest =>
    match key.name? with
    | none => .error .breakdown
    | some name => do
      let setting ← value.setting
      return (name, setting) :: (← settingEntries rest)

end

end Node

end SieveFilter.Yaml
