import SieveFilter.Ini
import SieveFilter.Json.Number
import SieveFilter.Json.Reader
import SieveFilter.Json5
import SieveFilter.Ron
import SieveFilter.Toml.Reader
import SieveFilter.Yaml.Document

/-!
# Formats of settings files

A settings file is known by the end of its name.  Whatever its format is, it stands for a table of settings.
-/

namespace SieveFilter

namespace Setting

mutual

/-- The setting that a value of TOML stands for. -/
def ofToml : Toml.Value → Setting
  | .integer n => integer n
  | .number value => number value
  | .boolean b => boolean b
  | .text words => text words
  | .array items => list (ofTomlItems items)
  | .table _ entries => table (ofTomlEntries entries)
  | .tables latest before => list ((table (ofTomlEntries latest) :: ofTomlTables before).reverse)

def ofTomlItems : List Toml.Value → List Setting
  | [] => []
  | item :: rest => ofToml item :: ofTomlItems rest

def ofTomlEntries : List (String × Toml.Value) → List (String × Setting)
  | [] => []
  | (key, value) :: rest => (key, ofToml value) :: ofTomlEntries rest

def ofTomlTables : List (List (String × Toml.Value)) → List Setting
  | [] => []
  | entries :: rest => table (ofTomlEntries entries) :: ofTomlTables rest

end

/-- The setting that a number of JSON stands for. -/
def ofAmount : Json.Amount → Setting
  | .integer n => integer n
  | .number value => number (.ofFloat value)

mutual

/-- The setting that a value of JSON stands for.  Values lie in fewer than `depth` others. -/
def ofJson? (depth : Nat) : Json → Option Setting
  | .null => some nothing
  | .bool b => some (boolean b)
  | .number literal => (Json.amount? literal).map ofAmount
  | .string words => words.map text
  | .array items => if depth ≤ 1 then none else (ofJsonItems? (depth - 1) items).map list
  | .object members => if depth ≤ 1 then none else (ofJsonMembers? (depth - 1) members).map ofEntries

def ofJsonItems? (depth : Nat) : List Json → Option (List Setting)
  | [] => some []
  | item :: rest => do
    let setting ← ofJson? depth item
    return setting :: (← ofJsonItems? depth rest)

def ofJsonMembers? (depth : Nat) : List (Option String × Json) → Option (List (String × Setting))
  | [] => some []
  | (key, value) :: rest => do
    let key ← key
    let setting ← ofJson? depth value
    return (key, setting) :: (← ofJsonMembers? depth rest)

end

/-- The settings that a section of an INI file stands for: each of its own if it has no name, else together a
table under its name. -/
def ofSection (part : Ini.Section) : List (String × Setting) :=
  let entries := part.entries.map fun (key, value) => (key, text value)
  match part.name with
  | none => entries
  | some name => [(name, ofEntries entries)]

end Setting

namespace Settings

/-- A format of settings files. -/
inductive Format where
  | toml
  | json
  | yaml
  | ini
  | ron
  | json5
  deriving DecidableEq, Repr

namespace Format

/-- The ends of names with their formats. -/
def extensions : List (String × Format) :=
  [("toml", toml), ("json", json), ("yaml", yaml), ("yml", yaml), ("ini", ini), ("ron", ron),
    ("json5", json5)]

/-- The end of a name behind its last point, which has something in front of it. -/
def extension? (name : String) : Option String :=
  match name.toList.reverse.span (· != '.') with
  | (last, '.' :: _ :: _) => some (String.ofList last.reverse)
  | _ => none

/-- The format of the file with a name. -/
def ofName? (name : String) : Option Format :=
  (extension? name).bind fun last => extensions.lookup last

def maxDepth : Nat := 128

/-- The reading of a text, or the failure of loading if it has none. -/
def orFailure : Option Setting → Except Failure Setting
  | some setting => .ok setting
  | none => .error .settings

def read (format : Format) (text : String) : Except Failure Setting :=
  match format with
  | toml => orFailure ((Toml.read? text.toList).map fun entries => .table (Setting.ofTomlEntries entries))
  | json => orFailure ((Json.read? text).bind (Setting.ofJson? maxDepth))
  | yaml => Yaml.setting text.toList
  | ini => orFailure ((Ini.read? text.toList).map fun parts => .ofEntries (parts.flatMap Setting.ofSection))
  | ron => orFailure (Ron.read? text.toList)
  | json5 => orFailure (Json5.read? text.toList)

/-- The settings in a text, which must stand for a table. -/
def entries (format : Format) (text : String) : Except Failure (List (String × Setting)) := do
  match ← format.read text with
  | .table entries => return entries
  | _ => throw .settings

end Format

end Settings

end SieveFilter
