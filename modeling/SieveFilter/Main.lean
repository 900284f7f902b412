import SieveFilter.CommandLine
import SieveFilter.Text.Lenient

/-!
# The program

Reads the files that a command line mentions into a file tree, runs it, and brings the files that have
changed back to the disk.
-/

namespace SieveFilter.Program

open FileTree (Node)

def pathText (parts : Parts) : String :=
  if parts = [] then "." else "/".intercalate parts

/-- What lies on the disk at the parts of a path. -/
def nodeAt (parts : Parts) : IO Node := do
  if FileTree.isDevice parts then return .file .empty
  try
    return .file (← IO.FS.readBinFile (pathText parts))
  catch
    | .inappropriateType .. => return .folder
    | _ => return .missing

/-- The tree with what lies on the way along the parts of a path, as far as there are folders. -/
def visit (tree : FileTree) (here : Parts) : Parts → IO FileTree
  | [] => return tree
  | part :: rest => do
    let place := FileTree.step here part
    match ← nodeAt place with
    | .file contents => return tree.put place contents
    | .folder => visit { tree with folders := place :: tree.folders } place rest
    | .missing => return tree

/-- The tree with what lies at a path and on the way to it. -/
def look (tree : FileTree) (path : String) : IO FileTree :=
  visit tree (FileTree.start path) (FileTree.split path)

/-- The part of the disk that a filtering run looks at. -/
def surroundings (task : CommandLine.Task) : IO FileTree := do
  let tree ← task.mentioned.foldlM look ⟨[], [], []⟩
  match task.paths tree with
  | .ok paths => paths.foldlM look tree
  | .error _ => return tree

/-- Brings the files in which two trees differ to the disk. -/
def save (before after : FileTree) : IO Unit := do
  for (parts, contents) in after.files do
    if before.files.lookup parts != some contents then
      IO.FS.writeBinFile (pathText parts) contents
  for (parts, _) in before.files do
    if (after.files.lookup parts).isNone then
      IO.FS.removeFile (pathText parts)

/-- The variables of an environment block: a name and a value with an equals sign between them, and a zero
byte at the end of each. -/
def environmentOf (block : ByteArray) : List (String × String) :=
  ((Text.lenient block).splitOn "\x00").filterMap fun entry =>
    match entry.splitOn "=" with
    | name :: first :: rest => some (name, "=".intercalate (first :: rest))
    | _ => none

def environment : IO (List (String × String)) := do
  try
    return environmentOf (← IO.FS.readBinFile "/proc/self/environ")
  catch _ => return []

def usage : String :=
  "usage: purge --out OUT --nrels N [OPTIONS] [--] [FILES]..."

/-- Whether an action goes through. -/
def succeeds (action : IO Unit) : IO Bool := do
  try
    action
    return true
  catch _ => return false

/-- Tells how a run ends, as far as the terminal takes it. -/
def tell (request : CommandLine.Request) (ending : CommandLine.Ending) : IO CommandLine.Terminal := do
  for line in ending.log do
    let _ ← succeeds (IO.eprintln line)
  let output ← succeeds do
    if request == .help then IO.println usage
    IO.print ending.output
    (← IO.getStdout).flush
  let errors ← succeeds do
    if request == .misuse then IO.eprintln usage
    if let some text := ending.error then IO.eprintln text
  return ⟨output, errors⟩

/-- Runs a request and tells its exit code.  Nothing is written to the disk before it is known what the terminal
has taken. -/
def serve (arguments : List String) : IO UInt32 := do
  let platform := CommandLine.Platform.standard .unchecked
  let request := platform.read arguments
  let before ← match request with
    | .filter task => surroundings task
    | _ => pure ⟨[], [], []⟩
  let environment ← environment
  let terminal ← tell request (CommandLine.run platform arguments environment before)
  let ending := CommandLine.run { platform with terminal } arguments environment before
  save before ending.tree
  return UInt32.ofNat ending.code

end SieveFilter.Program

def main (arguments : List String) : IO UInt32 :=
  SieveFilter.Program.serve arguments
