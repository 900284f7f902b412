import SieveFilter.Failure

/-!
# File trees

The files that a program sees below its working folder, as a value.  Paths are resolved part by part, and
every part but the last one must be a folder.
-/

namespace SieveFilter

/-- The parts of a path from the working folder. -/
abbrev Parts := List String

/-- The files with their contents, folders that are there beside those that the files lie in, and places whose
files cannot be removed. -/
structure FileTree where
  files : List (Parts × ByteArray)
  folders : List Parts
  fixed : List Parts

namespace FileTree

/-- What a path leads to. -/
inductive Node where
  | missing
  | folder
  | file (contents : ByteArray)

/-- The parts of a path as it is written; empty parts do not count. -/
def split (path : String) : Parts :=
  (path.splitOn "/").filter (· != "")

/-- A path that ends like this names a folder. -/
def endsAsFolder (path : String) : Bool :=
  match (path.splitOn "/").getLast? with
  | some last => last == "" || last == "." || last == ".."
  | none => true

/-- An absolute path does not begin at the working folder. -/
def isAbsolute (path : String) : Bool :=
  path.startsWith "/"

/-- The parts of the folder that a path begins at. -/
def start (path : String) : Parts :=
  if isAbsolute path then ["/"] else []

/-- The parts behind one more part of a path.  One dot leads nowhere, and two dots lead back to the folder
before; the root is before itself, and what is before the working folder is named by its dots. -/
def step (here : Parts) (part : String) : Parts :=
  if part == "." then here
  else if part != ".." then here ++ [part]
  else
    match here.getLast? with
    | none | some ".." => here ++ [part]
    | some "/" => here
    | some _ => here.dropLast

/-- The device that holds nothing and takes everything. -/
def nullDevice : Parts := ["/", "dev", "null"]

/-- The device that has no room for anything. -/
def fullDevice : Parts := ["/", "dev", "full"]

/-- The devices, which are files that never change. -/
def isDevice (parts : Parts) : Bool :=
  parts == nullDevice || parts == fullDevice

/-- The root, the folder of the devices, the working folder and the folders before it are always there. -/
def isOutermost (parts : Parts) : Bool :=
  parts == [] || parts == ["/"] || parts == ["/", "dev"] || parts.getLast? == some ".."

/-- The bytes of the longest name. -/
def maxName : Nat := 255

/-- The bytes of the longest path. -/
def maxPath : Nat := 4095

/-- The folders are the outermost ones, those that are named, and those on the way to a folder or a file. -/
def isFolder (tree : FileTree) (parts : Parts) : Bool :=
  isOutermost parts || tree.folders.any (parts.isPrefixOf ·) ||
    tree.files.any fun (place, _) => parts.isPrefixOf place && parts != place

/-- What lies at the parts of a path. -/
def node (tree : FileTree) (parts : Parts) : Node :=
  if tree.isFolder parts then .folder
  else
    match tree.files.lookup parts with
    | some contents => .file contents
    | none => if isDevice parts then .file .empty else .missing

def walk (tree : FileTree) (here : Parts) : Parts → Except Fault Parts
  | [] => .ok here
  | part :: rest =>
    match tree.node here with
    | .missing => .error (.missing none)
    | .file _ => .error (.notFolder none)
    | .folder =>
      if maxName < part.utf8ByteSize then .error (.longName none) else walk tree (step here part) rest

/-- The place that a path leads to, whether or not anything lies there. -/
def resolve (tree : FileTree) (path : String) : Except Fault Parts :=
  if path = "" then .error (.missing none)
  else if path.toList.contains '\x00' then .error (.zeroCharacter none)
  else if maxPath < path.utf8ByteSize then .error (.longName none)
  else tree.walk (start path) (split path)

/-- Opens a path for reading: its contents, or the fault that opening meets.  A folder can be opened, but
its contents cannot be read. -/
def open? (tree : FileTree) (path : String) : Except Fault (Except Fault ByteArray) := do
  let parts ← tree.resolve path
  match tree.node parts with
  | .missing => .error (.missing none)
  | .folder => .ok (.error .folder)
  | .file contents => if endsAsFolder path then .error (.notFolder none) else .ok (.ok contents)

def read (tree : FileTree) (path : String) : Except Fault ByteArray := do
  match ← tree.open? path with
  | .error cause => .error cause
  | .ok contents => .ok contents

/-- The contents of the file at a path, if it is one and no device. -/
def file? (tree : FileTree) (path : String) : Option ByteArray :=
  match tree.resolve path with
  | .ok parts => if isDevice parts then none else (tree.read path).toOption
  | .error _ => none

def contains (tree : FileTree) (path : String) : Bool :=
  match tree.open? path with
  | .ok _ => true
  | .error _ => false

/-- The tree with other contents at the parts of a path.  A device stays as it is. -/
def put (tree : FileTree) (parts : Parts) (contents : ByteArray) : FileTree :=
  if isDevice parts then tree
  else { tree with files := (parts, contents) :: tree.files.filter (·.1 != parts) }

def create (tree : FileTree) (path : String) : Except Fault (Parts × FileTree) := do
  let parts ← tree.resolve path
  match tree.node parts with
  | .folder => .error .folder
  | _ => if endsAsFolder path then .error .folder else .ok (parts, tree.put parts .empty)

def overwrite (tree : FileTree) (parts : Parts) (offset : Nat) (bytes : ByteArray) : FileTree :=
  match tree.files.lookup parts with
  | some old =>
    tree.put parts (old.extract 0 offset ++ bytes ++ old.extract (offset + bytes.size) old.size)
  | none => tree.put parts bytes

/-- Whether the file at the parts of a path has room for bytes. -/
def hasRoom (parts : Parts) (bytes : ByteArray) : Bool :=
  parts != fullDevice || bytes.isEmpty

/-- Removes the file at a path, if there is one that can be removed; the folder that it lies in stays.  A path
that names a folder removes nothing. -/
def remove (tree : FileTree) (path : String) : FileTree :=
  match tree.resolve path with
  | .error _ => tree
  | .ok parts =>
    if endsAsFolder path || tree.fixed.contains parts then tree
    else
      { tree with
        files := tree.files.filter (·.1 != parts)
        folders := parts.dropLast :: tree.folders }

end FileTree

end SieveFilter
