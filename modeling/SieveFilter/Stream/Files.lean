import SieveFilter.FileTree
import SieveFilter.Stream
import SieveFilter.Text.Blank

/-!
# Relations in files

A stream of relations may be spread over files, which are read one after the other.  Lines end at a line
feed; a carriage return before it belongs to the line end.  A line that is not UTF-8 shows up as a fault in
its place, and so does a file that cannot be opened.
-/

namespace SieveFilter.Stream

open Text (trim)

/-- The bytes of a line before its line feed, without a carriage return at their end; the bytes come and
go latest first. -/
def dropReturn : List UInt8 → List UInt8
  | 13 :: rest => rest
  | bytes => bytes

/-- Splits bytes into lines.  `line` holds the bytes of the line so far and `past` the lines before it,
both latest first. -/
def splitFrom (past : List (List UInt8)) (line : List UInt8) : List UInt8 → List (List UInt8)
  | [] => (if line = [] then past else line.reverse :: past).reverse
  | b :: rest =>
    if b = 10 then splitFrom ((dropReturn line).reverse :: past) [] rest
    else splitFrom past (b :: line) rest

/-- The lines of a file; what follows the last line feed is a line unless it is empty. -/
def splitLines (bytes : List UInt8) : List (List UInt8) :=
  splitFrom [] [] bytes

/-- The text of bytes that are UTF-8. -/
def decode (bytes : List UInt8) : Except Fault String :=
  match String.fromUTF8? (ByteArray.mk bytes.toArray) with
  | some text => .ok text
  | none => .error .notText

/-- The lines of the contents of a file as texts. -/
def textLines (contents : ByteArray) : List (Except Fault String) :=
  (splitLines contents.data.toList).map decode

def lineEvent : Except Fault String → Event
  | .ok line => .line line
  | .error cause => .fault cause

def fileEvents (tree : FileTree) (path : String) : List Event :=
  match tree.open? path with
  | .error cause => [.fault (cause.onPath path)]
  | .ok (.error cause) => [.opened path, .fault cause]
  | .ok (.ok contents) => .opened path :: (textLines contents).map lineEvent

/-- The source that reads files in the given order. -/
def ofFiles (tree : FileTree) (paths : List String) : Source :=
  fun _ => paths.flatMap (fileEvents tree)

/-- The paths on the lines of a file list, blank lines left out. -/
def listedPaths (tree : FileTree) (path : String) : Except Fault (List String) := do
  let contents ← tree.read path
  let lines ← (textLines contents).mapM id
  let names := lines.map fun line => String.ofList (trim line.toList)
  return names.filter (· != "")

end SieveFilter.Stream
