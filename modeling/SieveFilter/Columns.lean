import SieveFilter.Roster
import SieveFilter.Run
import SieveFilter.Sink

/-!
# Columns

Renumbering gives every ideal that is still referred to a column, in slot order, and writes the column map:
one line a column with the number of the column in decimal and the prime and root of its ideal in
hexadecimal.
-/

namespace SieveFilter

namespace Roster

open Text (Numeral.hexText)

/-- A roster on the way of being renumbered, with the sink of the column map, the columns given so far,
and the ideals met that have a single reference. -/
structure Numbering where
  roster : Roster
  map : Option Sink
  columns : Nat
  singletons : Nat

namespace Numbering

/-- The ideals with a single reference that are reported before the others are passed over. -/
def singletonReports : Nat := 10

/-- The line of a column in the column map. -/
def mapLine (column : Nat) (ideal : Ideal) : String :=
  s!"{column} {Numeral.hexText ideal.p} {Numeral.hexText ideal.r}\n"

def writeLine (numbering : Numbering) (ideal : Ideal) : Run Numbering Unit :=
  let ⟨roster, map, columns, singletons⟩ := numbering
  match map with
  | none => .done ⟨roster, none, columns, singletons⟩ ()
  | some sink =>
    match sink.put (mapLine columns ideal) with
    | (sink, true) => .done ⟨roster, some sink, columns, singletons⟩ ()
    | (sink, false) => .fail ⟨roster, some sink, columns, singletons⟩ (.fault .full)

/-- Gives the next column to the ideal of a slot, whose value counts it from one. -/
def giveColumn (numbering : Numbering) (slot : Nat) (ideal : Ideal) : Run Numbering Bool :=
  let ⟨roster, map, columns, singletons⟩ := numbering
  let roster := roster.write slot (columns + 1)
  let written := writeLine ⟨roster, map, columns, singletons⟩ ideal
  written.next fun numbering _ =>
    .done { numbering with columns := columns + 1 } true

/-- Renumbers one slot.  A slot without references gets no column. -/
def take (numbering : Numbering) (slot : Nat) : Run Numbering Bool :=
  let ⟨roster, map, columns, singletons⟩ := numbering
  let count := roster.value slot
  if count = 0 then .done ⟨roster.write slot noColumn, map, columns, singletons⟩ true
  else
    match roster.ideal? slot with
    | none => .done ⟨roster, map, columns, singletons⟩ true
    | some ideal =>
      let isSingleton := count = 1
      let report :=
        if isSingleton ∧ singletons < singletonReports then [.singletonIdeal ideal] else []
      let singletons := if isSingleton then singletons + 1 else singletons
      (giveColumn ⟨roster, map, columns, singletons⟩ slot ideal).afterAll report

end Numbering

/-- Renumbers a roster that still counts, and gives the number of columns.  The column map is written to
the sink, if one is given. -/
def renumber (roster : Roster) (map : Option Sink) : Run (Roster × Option Sink) Nat :=
  match roster.beginRenumbering with
  | .error cause => .fail (roster, map) cause
  | .ok roster =>
    let slots := List.range roster.size
    let walk := Run.each Numbering.take ⟨roster, map, 0, 0⟩ slots
    let counted := walk.next fun numbering _ =>
      (Run.done numbering numbering.columns).after
        (.renumbered numbering.roster.size numbering.columns)
    counted.within fun numbering => (numbering.roster, numbering.map)

end Roster

end SieveFilter
