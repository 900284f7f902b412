import SieveFilter.Settings.Format
import SieveFilter.Settings.Library

/-!
# The standard library for settings

A settings file is one of several formats, known by the end of its name, and the value of an environment
variable is a number, a truth value or a text.
-/

namespace SieveFilter

open Text (Numeral.readInt Numeral.maxSigned)

/-- The setting that the value of an environment variable stands for. -/
def Setting.ofVariable (value : String) : Setting :=
  match value.toLower with
  | "true" => .boolean true
  | "false" => .boolean false
  | _ =>
    match Numeral.readInt Numeral.maxSigned value.toList with
    | .ok n => .integer n
    | .error _ =>
      match Decimal.Value.read? value.toList with
      | some read => .number read
      | none => .text value

namespace Settings

/-- The path of the file beside a folder whose name is that of the folder with an end behind it. -/
def beside? (path last : String) : Option String :=
  let parts := ((FileTree.split path).reverse.dropWhile (· == ".")).reverse
  let root := if FileTree.isAbsolute path then "/" else ""
  match parts.getLast? with
  | none | some ".." => none
  | some _ => some (root ++ "/".intercalate parts ++ "." ++ last)

/-- The paths of the files that may stand for a folder, with their formats. -/
def substitutes (path : String) : List (String × Format) :=
  Format.extensions.filterMap fun (last, format) => (beside? path last).map fun path => (path, format)

/-- The contents of the settings file at a path and its format.  For a folder the first file stands that is
there beside it and has its name and an end that is known. -/
def locate? (tree : FileTree) (path : String) : Option (ByteArray × Format) :=
  match tree.file? path with
  | some contents =>
    ((FileTree.split path).getLast?.bind Format.ofName?).map fun format => (contents, format)
  | none =>
    (substitutes path).findSome? fun (path, format) =>
      (tree.file? path).map fun contents => (contents, format)

/-- The settings in the file at a path, which must hold text. -/
def readFile (tree : FileTree) (path : String) : Except Failure (List (String × Setting)) :=
  match locate? tree path with
  | none => .error .settings
  | some (contents, format) =>
    match String.fromUTF8? contents with
    | some text => format.entries text
    | none => .error .settings

/-- The library that knows settings files by the end of their names. -/
def Library.standard : Library where
  entries := readFile
  parse := Setting.ofVariable
  overlay := Layer.assignAll
  count? := Setting.count?
  flag? := Setting.flag?
  text? := Setting.text?
  policy? := Setting.policy?

end Settings

end SieveFilter
