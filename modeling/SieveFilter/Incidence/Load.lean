import SieveFilter.Build
import SieveFilter.Incidence
import SieveFilter.Stream

/-!
# Loading a table from a stream

One reading of the relations gives each used row the list of its ideals above the bounds.  Rows that are
no longer used are passed over unread.  The first event that offends decides the failure.
-/

namespace SieveFilter

/-- What one loading met: the rows read, those that got a list, and the free relations among them. -/
structure LoadSummary where
  scanned : Nat
  registered : Nat
  free : Nat
  deriving DecidableEq, Repr

namespace Incidence

/-- A table on the way of being loaded. -/
structure Loading where
  table : Incidence
  summary : LoadSummary

/-- The rows between two reports of progress. -/
def progressInterval : Nat := 100000

/-- A report is due at the multiples of the interval, the first row left out. -/
def reportsAt (row : Nat) : Bool :=
  row % progressInterval == 0 && 0 < row

namespace Loading

def register (bounds : Bounds) (loading : Loading) (row : Nat) (line : String) : Run Loading Bool :=
  match Relation.ofLine line with
  | .error cause => .fail loading (.malformed row line cause)
  | .ok relation =>
    let ⟨table, ⟨scanned, registered, free⟩⟩ := loading
    let free := if relation.isFree then free + 1 else free
    let ideals := relation.forMatrix.idealsAbove bounds
    let stored := (table.register row ideals).within fun table =>
      ⟨table, ⟨scanned, registered, free⟩⟩
    stored.next fun loading _ =>
      .done { loading with summary := { loading.summary with registered := registered + 1 } } true

/-- The report that is due at a row. -/
def progress (loading : Loading) (row : Nat) : List Notice :=
  if reportsAt row then [.loadProgress row (loading.table.arena.bytes / Nat.pow 2 20)] else []

def takeLine (bounds : Bounds) (loading : Loading) (line : String) : Run Loading Bool :=
  let row := loading.summary.scanned
  let rows := loading.table.size
  if rows ≤ row then .fail loading (.rowCount rows (row + 1))
  else
    let report := loading.progress row
    let loading := { loading with summary := { loading.summary with scanned := row + 1 } }
    let taken :=
      if loading.table.isUsed row then loading.register bounds row line
      else .done loading true
    taken.afterAll report

def take (bounds : Bounds) (loading : Loading) : Event → Run Loading Bool
  | .opened path => (Run.done loading true).after (.opened path)
  | .fault cause => .fail loading (.fault cause)
  | .line line => loading.takeLine bounds line

/-- Ends a loading, whose stream must have had a line for every row. -/
def finish (loading : Loading) : Run Loading LoadSummary :=
  let ⟨scanned, _, _⟩ := loading.summary
  let rows := loading.table.size
  let ended : Run Loading LoadSummary :=
    if scanned = rows then .done loading loading.summary
    else .fail loading (.rowCount rows scanned)
  ended.after (.loaded scanned)

end Loading

/-- Fills the lists of the used rows of a table from the events of one reading. -/
def fill (table : Incidence) (bounds : Bounds) (events : List Event) : Run Incidence LoadSummary :=
  let start : Loading := ⟨{ table with liveIdeals := 0 }, ⟨0, 0, 0⟩⟩
  let walk := Run.each (Loading.take bounds) start events
  (walk.next fun loading _ => loading.finish).within Loading.table

/-- Loads the used rows of a table from the events of one reading.  References are counted from zero, so the
roster must be empty; a build that tests this breaks off where it is not, and others count on. -/
def load (table : Incidence) (build : Build) (bounds : Bounds) (events : List Event) :
    Run Incidence LoadSummary :=
  if build.asserts && table.roster.size != 0 then .fail table .breakdown
  else table.fill bounds events

end Incidence

end SieveFilter
