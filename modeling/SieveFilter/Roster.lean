import SieveFilter.Failure
import Std.Data.TreeMap

/-!
# Rosters

A roster numbers ideals by slots in the order of their first appearance and keeps one integer a slot.
While relations are counted the integer is the number of live references to the ideal; renumbering turns
it, once, into the number of the ideal's column.
-/

namespace SieveFilter

/-- What the values of a roster mean. -/
inductive Phase where
  | counting
  | renumbered
  deriving DecidableEq, Repr

/-- Ideals with their slots, one value a slot, and the meaning of the values. -/
structure Roster where
  ideals : Array Ideal
  slots : Std.TreeMap Ideal Nat
  values : Array Int
  phase : Phase

namespace Roster

/-- The value of a slot as its phase explains it. -/
inductive Entry where
  | count (references : Nat)
  | column (number : Nat)
  | eliminated
  deriving DecidableEq, Repr

/-- The value of a slot whose ideal has no column. -/
def noColumn : Int := -1

def empty : Roster :=
  ⟨#[], ∅, #[], .counting⟩

/-- The number of slots. -/
def size (roster : Roster) : Nat :=
  roster.ideals.size

def slot? (roster : Roster) (ideal : Ideal) : Option Nat :=
  roster.slots[ideal]?

def ideal? (roster : Roster) (slot : Nat) : Option Ideal :=
  roster.ideals[slot]?

/-- The slot of an ideal, and the roster in which the ideal has it; a new ideal has value zero. -/
def insert (roster : Roster) (ideal : Ideal) : Nat × Roster :=
  match roster.slot? ideal with
  | some slot => (slot, roster)
  | none =>
    let slot := roster.ideals.size
    (slot, { roster with
      ideals := roster.ideals.push ideal
      slots := roster.slots.insert ideal slot
      values := roster.values.push 0 })

def value? (roster : Roster) (slot : Nat) : Option Int :=
  roster.values[slot]?

/-- The value of a slot; slots that do not exist read as zero. -/
def value (roster : Roster) (slot : Nat) : Int :=
  roster.values.getD slot 0

/-- The roster with the value of one slot changed. -/
def adjust (roster : Roster) (slot : Nat) (change : Int → Int) : Roster :=
  { roster with values := roster.values.modify slot change }

def increment (roster : Roster) (slot : Nat) : Roster :=
  roster.adjust slot (· + 1)

def decrement (roster : Roster) (slot : Nat) : Roster :=
  roster.adjust slot (· - 1)

def write (roster : Roster) (slot : Nat) (value : Int) : Roster :=
  roster.adjust slot fun _ => value

/-- The changed roster with the new value of a slot, if there is such a slot. -/
def adjust? (roster : Roster) (slot : Nat) (change : Int → Int) : Option (Int × Roster) :=
  (roster.value? slot).map fun old => (change old, roster.adjust slot change)

/-- The meaning of a value.  A column number is read modulo 2³². -/
def Entry.ofValue (phase : Phase) (value : Int) : Entry :=
  if value = noColumn then .eliminated
  else
    match phase with
    | .counting => .count value.toNat
    | .renumbered => if value = 0 then .eliminated else .column (value % Nat.pow 2 32).toNat

/-- The meaning of the value of a slot, if there is such a slot. -/
def meaning? (roster : Roster) (slot : Nat) : Option Entry :=
  (roster.value? slot).map (Entry.ofValue roster.phase)

/-- Begins the renumbering of a counting roster. -/
def beginRenumbering (roster : Roster) : Except Failure Roster :=
  match roster.phase with
  | .renumbered => .error (.misuse .renumberedTwice)
  | .counting => .ok { roster with phase := .renumbered }

/-- The column of an ideal, counted from zero, in a renumbered roster. -/
def columnOf (roster : Roster) (ideal : Ideal) : Except Failure (Option Nat) :=
  match roster.phase with
  | .counting => .error (.misuse .columnBeforeRenumbering)
  | .renumbered =>
    match (roster.slot? ideal).bind roster.meaning? with
    | some (.column number) => .ok (some (number - 1))
    | _ => .ok none

/-- The number of slots with a positive value. -/
def liveCount (roster : Roster) : Nat :=
  roster.values.countP (0 < ·)

def toList (roster : Roster) : List (Ideal × Int) :=
  roster.ideals.toList.zip roster.values.toList

end Roster

end SieveFilter
