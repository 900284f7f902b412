import SieveFilter.Settings
import SieveFilter.Settings.Address

/-!
# Layers of settings

Settings come in layers over the default ones, and the value given last counts.  Names have no case.  A
value that is overridden is never looked at, so that it does no harm where it makes no sense, and names
that no setting has are left alone.
-/

namespace SieveFilter

/-- Settings by name, as far as they are given. -/
abbrev Layer := List (String × Setting)

namespace Layer

/-- Gives a value to the address that a key stands for. -/
def assign (layer : Layer) (key : String) (setting : Setting) : Except Failure Layer :=
  (setting.assign (Address.read (Setting.fold key)) (.table layer)).map Setting.entries

/-- Gives values to the addresses that keys stand for, one after the other. -/
def assignAll : List (String × Setting) → Layer → Except Failure Layer
  | [], layer => .ok layer
  | (key, setting) :: rest, layer => (layer.assign key setting).bind (assignAll rest)

/-- The reading of the value that a name has, which must have one. -/
def required (layer : Layer) (name : String) (read : Setting → Option α) : Option α :=
  (layer.lookup name).bind read

/-- The reading of the value that a name has, if it is given one. -/
def optional (layer : Layer) (name : String) (read : Setting → Option α) : Option (Option α) :=
  match layer.lookup name with
  | none | some .nothing => some none
  | some setting => (read setting).map some

/-- The address that an environment variable gives a value to. -/
def ofVariableName? (name : String) : Option String :=
  ("purge_".toList.isPrefixOf? (Setting.fold name).toList).map String.ofList

end Layer

namespace Settings

/-- The default settings as the layer under all others. -/
def defaultLayer : Layer := [
  ("nrels", .integer default.rows),
  ("rlim", .integer default.rationalBase),
  ("alim", .integer default.algebraicBase),
  ("lpbr", .integer default.rationalBits),
  ("lpba", .integer default.algebraicBits),
  ("min_excess", .integer default.requiredExcess),
  ("keep", .integer default.keptExcess),
  ("raw", .boolean default.raw),
  ("cost_policy", .text (default.costPolicy.name "_")),
  ("block_capacity", .integer default.blockCapacity),
  ("log_level", .text default.logLevel)]

/-- The largest number of bits of a large prime bound. -/
def maxBits : Nat := Nat.pow 2 32 - 1

end Settings

end SieveFilter
