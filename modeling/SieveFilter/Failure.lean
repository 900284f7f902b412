import SieveFilter.Relation.Line

/-!
# Failures

The ways in which filtering ends without a result, and their wording.  None of them is repaired: a run
that fails is started again with more relations or looser bounds.
-/

namespace SieveFilter

/-- The ways in which reading from or writing to the outside fails. -/
inductive Fault where
  /-- There is no such file, named in the message if a path is given. -/
  | missing (path : Option String)
  /-- A file stands where the path needs a folder. -/
  | notFolder (path : Option String)
  /-- The path, or a name in it, is longer than names may be. -/
  | longName (path : Option String)
  /-- The path holds a zero character, which no name has. -/
  | zeroCharacter (path : Option String)
  /-- A folder stands where a file is needed. -/
  | folder
  /-- The bytes read are not UTF-8. -/
  | notText
  /-- The destination takes no more bytes. -/
  | full
  /-- The device that is written to has no room. -/
  | noSpace
  /-- A fault that is reported in words of its own. -/
  | reported (text : String)
  deriving DecidableEq, Repr

namespace Fault

/-- A message with the path it is about in front, if there is one. -/
def about (path : Option String) (text : String) : String :=
  match path with
  | none => text
  | some path => s!"{path}: {text}"

/-- The fault with the path it is about, where it is about a path. -/
def onPath (path : String) : Fault → Fault
  | missing _ => missing (some path)
  | notFolder _ => notFolder (some path)
  | longName _ => longName (some path)
  | zeroCharacter _ => zeroCharacter (some path)
  | cause => cause

def message : Fault → String
  | missing path => about path "No such file or directory (os error 2)"
  | notFolder path => about path "Not a directory (os error 20)"
  | longName path => about path "File name too long (os error 36)"
  | zeroCharacter path => about path "file name contained an unexpected NUL byte"
  | folder => "Is a directory (os error 21)"
  | notText => "stream did not contain valid UTF-8"
  | full => "failed to write whole buffer"
  | noSpace => "No space left on device (os error 28)"
  | reported text => text

end Fault

/-- The uses of a roster that its phase forbids. -/
inductive Misuse where
  | renumberedTwice
  | columnBeforeRenumbering
  deriving DecidableEq, Repr

def Misuse.message : Misuse → String
  | .renumberedTwice => "registry was already renumbered"
  | .columnBeforeRenumbering => "column lookup before renumbering"

/-- The ways in which filtering fails. -/
inductive Failure where
  | fault (cause : Fault)
  | malformed (row : Nat) (line : String) (cause : Relation.LineError)
  | rowCount (expected found : Nat)
  | initialExcess (rows ideals required : Nat)
  | noExcess (rows ideals : Nat)
  | listTooLong (requested capacity : Nat)
  | noColumn (row : Nat) (ideal : Ideal)
  | misuse (cause : Misuse)
  | settings
  /-- The run breaks off on the spot, as when it asks for more storage than there are addresses. -/
  | breakdown
  deriving DecidableEq, Repr

def Failure.message : Failure → String
  | .fault cause => s!"I/O error: {cause.message}"
  | .malformed row line cause =>
    let shown := String.ofList (Text.quoted line.toList)
    s!"malformed relation at row {row}: {cause.message} (line: {shown})"
  | .rowCount expected found =>
    s!"expected {expected} relations but scanned {found}; nrels must match the input"
  | .initialExcess rows ideals required =>
    s!"initial excess is below requested {required} (nrels={rows}, nprimes={ideals})"
  | .noExcess rows ideals =>
    s!"excess is not positive after pruning (nrels={rows}, nprimes={ideals})"
  | .listTooLong requested capacity =>
    s!"requested {requested} cells but a block only holds {capacity}; block capacity is too small"
  | .noColumn row ideal => s!"row {row} references ideal {ideal.text} which has no column"
  | .misuse cause => s!"registry used in the wrong phase: {cause.message}"
  | .settings => "configuration error"
  | .breakdown => "the run broke off"

end SieveFilter
