import SieveFilter.Incidence.Load
import SieveFilter.Sink

/-!
# The matrix

The surviving rows are read once more and written: after a header with the numbers of rows and columns
comes one line a row with its number, its weight and its columns in hexadecimal.  In raw form the lines of
the surviving relations are copied as they are.  The reading stops when all rows are written.
-/

namespace SieveFilter

/-- What was written: the rows, and the entries of the matrix in all of them. -/
structure EmitSummary where
  rows : Nat
  weight : Nat
  deriving DecidableEq, Repr

namespace Incidence

open Text (Numeral.hexText)

/-- A matrix on the way of being written: its sink, the rows met in the stream, and what was written. -/
structure Emission where
  sink : Sink
  met : Nat
  rows : Nat
  weight : Nat

namespace Emission

def write (emission : Emission) (text : String) : Run Emission Unit :=
  let ⟨sink, met, rows, weight⟩ := emission
  match sink.put text with
  | (sink, true) => .done ⟨sink, met, rows, weight⟩ ()
  | (sink, false) => .fail ⟨sink, met, rows, weight⟩ (.fault .full)

/-- Writes the columns of the ideals of a row, and the end of its line. -/
def writeColumns (roster : Roster) (row : Nat) (emission : Emission) : List Ideal → Run Emission Unit
  | [] => emission.write "\n"
  | ideal :: rest =>
    match roster.columnOf ideal with
    | .error cause => .fail emission cause
    | .ok none => .fail emission (.noColumn row ideal)
    | .ok (some column) =>
      (emission.write s!" {Numeral.hexText column}").next fun emission _ =>
        writeColumns roster row emission rest

def writeRow
    (roster : Roster) (emission : Emission) (row : Nat) (line : String) : Run Emission Bool :=
  match Relation.ofLine line with
  | .error cause => .fail emission (.malformed row line cause)
  | .ok relation =>
    let ideals := relation.forMatrix.ideals
    (emission.write s!"{row} {ideals.length}").next fun emission _ =>
      (writeColumns roster row emission ideals).next fun emission _ =>
        .done
          { emission with
            rows := emission.rows + 1
            weight := emission.weight + ideals.length }
          true

def copyRow (emission : Emission) (line : String) : Run Emission Bool :=
  (emission.write (line ++ "\n")).next fun emission _ =>
    .done { emission with rows := emission.rows + 1 } true

/-- Takes the line of the next row met in the stream. -/
def takeLine
    (emission : Emission) (table : Incidence) (raw : Bool) (line : String) :
    Run Emission Bool :=
  let row := emission.met
  let report := if reportsAt row then [.emitProgress row] else []
  let emission := { emission with met := row + 1 }
  let taken :=
    if table.isUsed row then
      if raw then emission.copyRow line else emission.writeRow table.roster row line
    else .done emission true
  taken.afterAll report

/-- Takes the next event of the stream.  With all rows written, a line or a fault ends the walk. -/
def take (table : Incidence) (raw : Bool) (emission : Emission) : Event → Run Emission Bool
  | .opened path => (Run.done emission true).after (.opened path)
  | .fault cause =>
    if table.liveRows ≤ emission.rows then .done emission false
    else .fail emission (.fault cause)
  | .line line =>
    if table.liveRows ≤ emission.rows then .done emission false
    else emission.takeLine table raw line

end Emission

/-- Writes the header of the matrix; the raw form has none. -/
def emitHeader (table : Incidence) (sink : Sink) (columns : Nat) (raw : Bool) : Run Sink Unit :=
  let emission : Emission := ⟨sink, 0, 0, 0⟩
  let header :=
    if raw then .done emission () else emission.write s!"{table.liveRows} {columns}\n"
  header.within Emission.sink

/-- Writes the surviving rows of a table, read again from the events of a stream. -/
def emitRows
    (table : Incidence) (events : List Event) (sink : Sink) (raw : Bool) : Run Sink EmitSummary :=
  let walk := (Run.each (Emission.take table raw) ⟨sink, 0, 0, 0⟩ events).after .emitBegins
  let counted := walk.next fun emission _ =>
    if emission.rows = table.liveRows then .done emission ⟨emission.rows, emission.weight⟩
    else .fail emission (.rowCount table.liveRows emission.rows)
  counted.within Emission.sink

def emit
    (table : Incidence) (events : List Event) (sink : Sink) (columns : Nat) (raw : Bool) :
    Run Sink EmitSummary :=
  (table.emitHeader sink columns raw).next fun sink _ => table.emitRows events sink raw

end Incidence

end SieveFilter
