import SieveFilter.Arena
import SieveFilter.Roster
import SieveFilter.Run

/-!
# Incidence of relations and ideals

The table that filtering works on: which rows are still used, which slots of the roster each used row
refers to, and how many references each slot has.  The numbers of used rows and of referenced ideals are
kept along with them, so their difference, the excess, is known without a count.
-/

namespace SieveFilter

/-- The rows of the input with their lists of slots, and the roster that the slots belong to. -/
structure Incidence where
  used : Array Bool
  lists : Array (Option Arena.Handle)
  arena : Arena
  roster : Roster
  liveRows : Nat
  liveIdeals : Nat

namespace Incidence

/-- The table of a number of used rows without lists. -/
def new (rows blockCapacity : Nat) : Incidence where
  used := Array.replicate rows true
  lists := Array.replicate rows none
  arena := .new blockCapacity
  roster := .empty
  liveRows := rows
  liveIdeals := 0

/-- The number of rows, used or not. -/
def size (table : Incidence) : Nat :=
  table.used.size

/-- Rows outside the table are not used. -/
def isUsed (table : Incidence) (row : Nat) : Bool :=
  table.used.getD row false

/-- The used rows in increasing order. -/
def usedRows (table : Incidence) : List Nat :=
  (List.range table.size).filter table.isUsed

def usedCount (table : Incidence) : Nat :=
  table.used.count true

/-- The number of used rows above the number of referenced ideals. -/
def excess (table : Incidence) : Int :=
  table.liveRows - table.liveIdeals

/-- The slots that a row refers to; a row without a list refers to none. -/
def list (table : Incidence) (row : Nat) : List Nat :=
  match table.lists.getD row none with
  | some handle => table.arena.list handle
  | none => []

/-- The number of references to a slot. -/
def count (table : Incidence) (slot : Nat) : Int :=
  table.roster.value slot

def addReference (table : Incidence) (slot : Nat) : Incidence :=
  let roster := table.roster.increment slot
  let isNew := roster.value slot == 1
  { table with
    roster
    liveIdeals := if isNew then table.liveIdeals + 1 else table.liveIdeals }

def dropReference (table : Incidence) (slot : Nat) : Incidence :=
  let roster := table.roster.decrement slot
  let isLast := roster.value slot == 0
  { table with
    roster
    liveIdeals := if isLast then table.liveIdeals - 1 else table.liveIdeals }

/-- The slots of ideals in order, and the roster in which they all have one. -/
def slotsOf (roster : Roster) : List Ideal → List Nat × Roster
  | [] => ([], roster)
  | ideal :: rest =>
    let (slot, roster) := roster.insert ideal
    let (slots, roster) := slotsOf roster rest
    (slot :: slots, roster)

/-- Gives a row the list of its ideals.  The references are counted once the list is stored, so that after
a failure the counts still match the lists; ideals met for the first time keep their slots. -/
def register (table : Incidence) (row : Nat) (ideals : List Ideal) : Run Incidence Unit :=
  let ⟨used, lists, arena, roster, liveRows, liveIdeals⟩ := table
  let (slots, roster) := slotsOf roster ideals
  let stored := (arena.store slots).within fun arena =>
    ⟨used, lists, arena, roster, liveRows, liveIdeals⟩
  stored.next fun table handle =>
    let table := { table with lists := table.lists.setIfInBounds row (some handle) }
    .done (slots.foldl addReference table) ()

/-- A row has a singleton when it refers to a slot that has no other reference. -/
def hasSingleton (table : Incidence) (row : Nat) : Bool :=
  (table.list row).any (table.count · == 1)

/-- Takes a row out of use and drops its references. -/
def delete (table : Incidence) (row : Nat) : Incidence :=
  let slots := table.list row
  let ⟨used, lists, arena, roster, liveRows, liveIdeals⟩ := table
  let lists := lists.setIfInBounds row none
  let used := used.setIfInBounds row false
  slots.foldl dropReference ⟨used, lists, arena, roster, liveRows - 1, liveIdeals⟩

/-- Gives back all lists; which rows are used stays as it is. -/
def releaseLists (table : Incidence) : Incidence :=
  { table with
    lists := table.lists.map fun _ => none
    arena := table.arena.release }

def resetRoster (table : Incidence) : Incidence :=
  { table with roster := .empty }

/-- The number of references to each slot from the lists of used rows. -/
def recount (table : Incidence) : Array Int :=
  table.usedRows.foldl
    (fun counts row => (table.list row).foldl (fun counts slot => counts.modify slot (· + 1)) counts)
    (Array.replicate table.roster.size 0)

/-- The counts are consistent when a recount from the lists finds the values of the roster, and the numbers
of used rows and of referenced ideals that the table keeps. -/
def isConsistent (table : Incidence) : Bool :=
  let counts := table.recount
  counts == table.roster.values &&
    counts.countP (0 < ·) == table.liveIdeals &&
    table.roster.liveCount == table.liveIdeals &&
    table.usedCount == table.liveRows

@[simp] theorem dropReference_used (table : Incidence) (slot : Nat) :
    (table.dropReference slot).used = table.used := rfl

@[simp] theorem dropReference_liveRows (table : Incidence) (slot : Nat) :
    (table.dropReference slot).liveRows = table.liveRows := rfl

@[simp] theorem foldl_dropReference_used (table : Incidence) (slots : List Nat) :
    (slots.foldl dropReference table).used = table.used := by
  induction slots generalizing table with
  | nil => rfl
  | cons slot rest ih => rw [List.foldl_cons, ih, dropReference_used]

@[simp] theorem foldl_dropReference_liveRows (table : Incidence) (slots : List Nat) :
    (slots.foldl dropReference table).liveRows = table.liveRows := by
  induction slots generalizing table with
  | nil => rfl
  | cons slot rest ih => rw [List.foldl_cons, ih, dropReference_liveRows]

/-- A deletion takes exactly its row out of use. -/
@[simp] theorem delete_used (table : Incidence) (row : Nat) :
    (table.delete row).used = table.used.setIfInBounds row false := by
  simp [delete]

/-- A deletion leaves one used row less. -/
@[simp] theorem delete_liveRows (table : Incidence) (row : Nat) :
    (table.delete row).liveRows = table.liveRows - 1 := by
  simp [delete]

/-- The deletion of a used row makes the count of used rows smaller by one. -/
theorem usedCount_delete {table : Incidence} {row : Nat} (h : table.isUsed row = true) :
    (table.delete row).usedCount + 1 = table.usedCount := by
  have bound : row < table.used.size := by
    by_cases bound : row < table.used.size
    · exact bound
    · simp [isUsed, Array.getD, bound] at h
  have here : table.used[row] = true := by
    simpa [isUsed, Array.getD, bound] using h
  have positive : 0 < table.used.count true :=
    Array.count_pos_iff.mpr (here ▸ Array.getElem_mem bound)
  simp only [usedCount, delete_used, Array.setIfInBounds, bound, dif_pos, Array.count_set, here]
  simp
  omega

end Incidence

end SieveFilter
