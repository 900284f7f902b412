import SieveFilter.Incidence.Trim

/-!
# Operations that may break off

Operations are given rows by number, and reach the roster by the slots in the lists.  A row that the table does
not have breaks an operation off, and so does a slot that the roster does not have; such slots are left in the
lists where the roster is reset under them.
-/

namespace SieveFilter.Incidence

/-- Every slot in the lists of used rows is a slot of the roster. -/
def resolves (table : Incidence) : Bool :=
  table.usedRows.all fun row => (table.list row).all (· < table.roster.size)

/-- The value of an operation that reads the lists of all used rows. -/
def whenResolved (table : Incidence) (value : α) : Option α :=
  if table.resolves then some value else none

def isUsed? (table : Incidence) (row : Nat) : Option Bool :=
  table.used[row]?

def list? (table : Incidence) (row : Nat) : Option (List Nat) :=
  if row < table.size then some (table.list row) else none

/-- Whether one of the slots has a single reference.  The slots behind the first such one are not read. -/
def anySingle? (table : Incidence) : List Nat → Option Bool
  | [] => some false
  | slot :: rest => do
    let references ← table.roster.value? slot
    if references = 1 then return true else anySingle? table rest

def hasSingleton? (table : Incidence) (row : Nat) : Option Bool :=
  (table.list? row).bind table.anySingle?

/-- Gives a list to a row.  A list that cannot be stored fails before the row is looked for. -/
def registerAt (table : Incidence) (row : Nat) (ideals : List Ideal) : Run Incidence Unit :=
  (table.register row ideals).next fun registered _ =>
    if row < table.size then .done registered () else .fail table .breakdown

/-- Deletes a row, which must be used; only a build that tests this breaks off where it is not. -/
def delete? (table : Incidence) (build : Build) (row : Nat) : Option Incidence := do
  let used ← table.isUsed? row
  let slots := table.list row
  let isSound := (used || !build.asserts) && slots.all (· < table.roster.size)
  if isSound then some (table.delete row) else none

def sweep? (table : Incidence) : Option Sweep :=
  table.whenResolved table.sweep

def removeSingletons? (table : Incidence) : Option Deletion :=
  table.whenResolved table.removeSingletons

def clusters? (table : Incidence) : Option (List Cluster) :=
  table.whenResolved table.clusters

def partners? (table : Incidence) : Option (List (Nat × Nat × Nat)) :=
  table.whenResolved table.partners

def isConsistent? (table : Incidence) : Option Bool :=
  table.whenResolved table.isConsistent

/-- A trimming reads the lists only if there is something to do. -/
def trimAt (table : Incidence) (build : Build) (keep : Nat) (cost : Cost) : Run Incidence Nat :=
  if table.excess ≤ signed keep || table.resolves then table.trimIn build keep cost
  else .fail table .breakdown

def pruneAt (table : Incidence) (build : Build) (keep : Nat) (final : Bool) (cost : Cost) :
    Run Incidence Pruning :=
  if table.resolves then table.pruneIn build keep final cost else .fail table .breakdown

end SieveFilter.Incidence
