import SieveFilter.Columns
import SieveFilter.Incidence.Trim
import SieveFilter.Matrix
import SieveFilter.Report
import SieveFilter.Settings

/-!
# Reduction of a set of relations

A reduction runs in passes.  The first one loads only the ideals above the initial bounds, which keeps the
roster small while most of the superfluous relations are thrown away.  The next one loads every ideal of
the relations that are left; it is the final pass, and the only one whose excess is exact, so the excess is
trimmed and checked there.  Renumbering and the writing of the matrix follow.
-/

namespace SieveFilter

/-- A reduction: the build it runs in, its settings and cost, the table, the passes made, whether the final one
was completed, and how often the source has been read. -/
structure Reduction where
  build : Build
  settings : Settings
  cost : Cost
  table : Incidence
  passes : Nat
  filtered : Bool
  readings : Nat

namespace Reduction

/-- A reduction that has not made a pass. -/
def new (build : Build) (settings : Settings) (cost : Cost) : Reduction where
  build
  settings
  cost
  table := .new settings.rows settings.blockCapacity
  passes := 0
  filtered := false
  readings := 0

/-- Starts a reduction on a machine, which must have storage for its table. -/
def start (machine : Machine) (settings : Settings) (cost : Cost) : Run Unit Reduction :=
  let ideals := settings.rosterCapacity
  let started : Run Unit Reduction :=
    if machine.holds settings.rows ideals then .done () (.new machine.build settings cost)
    else .fail () .breakdown
  started.afterAll [.declaredRows settings.rows, .rosterCapacity ideals]

/-- Loads the table from the next reading of the source. -/
def load (reduction : Reduction) (source : Source) (bounds : Bounds) :
    Run Reduction LoadSummary :=
  let ⟨build, settings, cost, table, passes, filtered, readings⟩ := reduction
  let loaded := table.load build bounds (source readings)
  loaded.within fun table => ⟨build, settings, cost, table, passes, filtered, readings + 1⟩

/-- Checks, before the final pass deletes anything, that the excess is at least the required one. -/
def checkInitialExcess (reduction : Reduction) (final : Bool) : Run Reduction Unit :=
  let rows := reduction.table.liveRows
  let ideals := reduction.table.liveIdeals
  let required := reduction.settings.requiredExcess
  if final then
    match reduction.build.sum? ideals required with
    | none => .fail reduction .breakdown
    | some least =>
      if rows < least then .fail reduction (.initialExcess rows ideals required)
      else .done reduction ()
  else .done reduction ()

def prune (reduction : Reduction) (final : Bool) : Run Reduction Unit :=
  let ⟨build, settings, cost, table, passes, filtered, readings⟩ := reduction
  let pruned := (table.pruneIn build settings.keptExcess final cost).within fun table =>
    (⟨build, settings, cost, table, passes, filtered, readings⟩ : Reduction)
  let run := pruned.next fun reduction _ =>
    let table := reduction.table
    let notice := .passEnds table.liveRows table.liveIdeals table.excess
    (Run.done reduction ()).after notice
  run.after .removalBegins

/-- Checks that the excess is positive.  Lower bounds only bring more ideals, so the excess would not
become positive on a later pass. -/
def checkExcess (reduction : Reduction) : Run Reduction Unit :=
  let rows := reduction.table.liveRows
  let ideals := reduction.table.liveIdeals
  if rows ≤ ideals then .fail reduction (.noExcess rows ideals) else .done reduction ()

/-- One pass with the given bounds. -/
def pass (reduction : Reduction) (source : Source) (bounds : Bounds) : Run Reduction Unit :=
  let final := bounds.admitAll
  let ⟨build, settings, cost, table, passes, filtered, readings⟩ := reduction
  let loaded := load ⟨build, settings, cost, table, passes + 1, filtered, readings⟩ source bounds
  let run := loaded.next fun reduction summary =>
    let table := reduction.table
    let notice := .passLoaded table.liveRows table.liveIdeals table.excess summary.free
    let checked := (reduction.checkInitialExcess final).after notice
    checked.next fun reduction _ =>
      (reduction.prune final).next fun reduction _ =>
        reduction.checkExcess.next fun reduction _ =>
          .done { reduction with table := reduction.table.releaseLists } ()
  run.after (.passBegins (passes + 1))

/-- Marks the passes as completed. -/
def complete (reduction : Reduction) : Run Reduction Unit :=
  .done { reduction with filtered := true } ()

/-- Runs the passes.  The first one is also the final one if its bounds admit every ideal. -/
def filter (reduction : Reduction) (source : Source) : Run Reduction Unit :=
  let bounds := reduction.settings.initialBounds
  let first := (reduction.pass source bounds).after (.initialBounds bounds)
  first.next fun reduction _ =>
    if bounds.admitAll then reduction.complete
    else
      let reduction := { reduction with table := reduction.table.resetRoster }
      (reduction.pass source .none).next fun reduction _ => reduction.complete

/-- A reduction with the sinks of its matrix and, if one is wanted, of its column map. -/
structure Output where
  reduction : Reduction
  matrix : Sink
  map : Option Sink

/-- Runs the passes if they are not completed. -/
def ensureFiltered (output : Output) (source : Source) : Run Output Unit :=
  let ⟨reduction, matrix, map⟩ := output
  let run := if reduction.filtered then .done reduction () else reduction.filter source
  run.within fun reduction => ⟨reduction, matrix, map⟩

/-- Gives columns to the ideals of the table. -/
def renumber (output : Output) : Run Output Nat :=
  let ⟨⟨build, settings, cost, table, passes, filtered, readings⟩, matrix, map⟩ := output
  let ⟨used, lists, arena, roster, liveRows, liveIdeals⟩ := table
  let numbered := (roster.renumber map).within fun (roster, map) =>
    let table := ⟨used, lists, arena, roster, liveRows, liveIdeals⟩
    (⟨⟨build, settings, cost, table, passes, filtered, readings⟩, matrix, map⟩ : Output)
  numbered.after .renumberingBegins

def emitHeader (output : Output) (columns : Nat) : Run Output Unit :=
  let ⟨reduction, matrix, map⟩ := output
  let header := reduction.table.emitHeader matrix columns reduction.settings.raw
  (header.within fun matrix => ⟨reduction, matrix, map⟩).after .storingBegins

/-- Writes the surviving rows from the next reading of the source. -/
def emitRows (output : Output) (source : Source) : Run Output EmitSummary :=
  let ⟨reduction, matrix, map⟩ := output
  let emitted :=
    reduction.table.emitRows (source reduction.readings) matrix reduction.settings.raw
  emitted.within fun matrix => ⟨{ reduction with readings := reduction.readings + 1 }, matrix, map⟩

def report (reduction : Reduction) (columns : Nat) (emitted : EmitSummary) : Report where
  rows := emitted.rows
  columns
  excess := (emitted.rows : Int) - columns
  weight := emitted.weight
  passes := reduction.passes
  raw := reduction.settings.raw

/-- Gives columns to the surviving ideals and writes the matrix, the passes being run first if they are not
completed. -/
def write (output : Output) (source : Source) : Run Output Report :=
  (ensureFiltered output source).next fun output _ =>
    (renumber output).next fun output columns =>
      (emitHeader output columns).next fun output _ =>
        (emitRows output source).next fun output emitted =>
          .done output (output.reduction.report columns emitted)

/-- Runs the passes, whether or not they are completed, and writes the matrix. -/
def run (output : Output) (source : Source) : Run Output Report :=
  let ⟨reduction, matrix, map⟩ := output
  let filtered := (reduction.filter source).within fun reduction =>
    (⟨reduction, matrix, map⟩ : Output)
  filtered.next fun output _ => write output source

end Reduction

end SieveFilter
