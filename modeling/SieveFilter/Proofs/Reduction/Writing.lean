import SieveFilter.Proofs.Reduction.Columns
import SieveFilter.Proofs.Reduction.Filtering

/-!
# Writing after filtering

After successful filtering the matrix and its column map are written without a failure and without a
warning, and read back they describe the surviving rows.
-/

namespace SieveFilter

namespace Incidence

/-- A table without singletons can be written once its roster is renumbered. -/
theorem SingletonFree.writable {lines : List String} {table : Incidence}
    (h : SingletonFree (Relation.rowIdeals lines) table) {roster : Roster}
    (hrenumbered : Roster.Renumbered table.roster roster) (hsmall : table.roster.size < 2 ^ 32)
    (hsize : table.size = lines.length)
    (hreadable : ∀ row ∈ table.usedSet, ∃ line relation, lines[row]? = some line ∧
      Relation.ofLine line = .ok relation) :
    Writable { table.releaseLists with roster } lines (columnIn table.roster) where
  size_eq := hsize
  liveRows_eq := h.represents.consistent.liveRows_eq
  readable := by
    intro row hrow line hline
    obtain ⟨text, relation, htext, hread⟩ := hreadable row hrow
    rw [hline, Option.some.injEq] at htext
    exact ⟨relation, htext ▸ hread⟩
  columns := by
    intro row hrow ideal hideal
    obtain ⟨slot, hlive, hslot, hcolumn⟩ := h.exists_live hrow hideal
    rw [hcolumn]
    exact hrenumbered.columnOf_eq h.represents.wellFormed hsmall hslot
      (Roster.mem_liveBelow.mp hlive).2

/-- What is written of a table is the text of its matrix. -/
theorem read?_matrixText (table : Incidence) (lines : List String) :
    MatrixText.read? (headerWords table.liveRows (table.roster.column table.roster.size) ++ ['\n'] ++
        table.usedRows.flatMap (Emission.rowText lines (columnIn table.roster))) =
      some (table.matrix lines) := by
  have hrows : table.usedRows.flatMap (Emission.rowText lines (columnIn table.roster)) =
      Text.terminated ((table.usedRows.map fun row =>
        (row, (Relation.rowIdeals lines row).map (columnIn table.roster))).map
          fun line => rowWords line.1 line.2) := by
    rw [List.map_map, Text.terminated, List.flatMap_map]
    rfl
  rw [hrows, read?_matrix, List.map_map]
  rfl

end Incidence

namespace Reduction

open Incidence (columnMap)

/-- The output of a reduction to sinks that take everything. -/
def freshOutput (reduction : Reduction) : Output :=
  ⟨reduction, .empty none, some (.empty none)⟩

/-- A completed reduction is not run again. -/
theorem ends_ensureFiltered (output : Output) (source : Source)
    (hfiltered : output.reduction.filtered = true) :
    (ensureFiltered output source).Ends output () ∧ (ensureFiltered output source).Quiet := by
  obtain ⟨reduction, matrix, map⟩ := output
  simp only at hfiltered
  simp only [ensureFiltered, hfiltered, if_true]
  exact ⟨⟨rfl, rfl⟩, Run.quiet_done _ _⟩

/-- Renumbering changes the roster and the column map. -/
theorem ends_renumber (output : Output) {roster : Roster} {map : Option Sink} {columns : ℕ}
    (hends : (output.reduction.table.roster.renumber output.map).Ends (roster, map) columns)
    (hquiet : (output.reduction.table.roster.renumber output.map).Quiet) :
    (renumber output).Ends
        ⟨{ output.reduction with table := { output.reduction.table with roster } }, output.matrix, map⟩
        columns ∧
      (renumber output).Quiet := by
  obtain ⟨⟨build, settings, cost, ⟨used, lists, arena, roster, liveRows, liveIdeals⟩, passes, filtered,
    readings⟩, matrix, map⟩ := output
  refine ⟨?_, (hquiet.within _).after (by simp [Notice.level])⟩
  rw [renumber, Run.ends_after]
  exact Run.ends_within.mpr ⟨_, hends, rfl⟩

/-- The header changes the sink of the matrix. -/
theorem ends_emitHeader (output : Output) {columns : ℕ} {sink : Sink}
    (hends : (output.reduction.table.emitHeader output.matrix columns
      output.reduction.settings.raw).Ends sink ())
    (hquiet : (output.reduction.table.emitHeader output.matrix columns
      output.reduction.settings.raw).Quiet) :
    (emitHeader output columns).Ends { output with matrix := sink } () ∧
      (emitHeader output columns).Quiet := by
  obtain ⟨reduction, matrix, map⟩ := output
  refine ⟨?_, (hquiet.within _).after (by simp [Notice.level])⟩
  rw [emitHeader, Run.ends_after]
  exact Run.ends_within.mpr ⟨_, hends, rfl⟩

/-- The rows change the sink of the matrix, and the source has been read once more. -/
theorem ends_emitRows (output : Output) (source : Source) {sink : Sink} {summary : EmitSummary}
    (hends : (output.reduction.table.emitRows (source output.reduction.readings) output.matrix
      output.reduction.settings.raw).Ends sink summary)
    (hquiet : (output.reduction.table.emitRows (source output.reduction.readings) output.matrix
      output.reduction.settings.raw).Quiet) :
    (emitRows output source).Ends
        ⟨{ output.reduction with readings := output.reduction.readings + 1 }, sink, output.map⟩
        summary ∧
      (emitRows output source).Quiet := by
  obtain ⟨reduction, matrix, map⟩ := output
  exact ⟨hends.within _, hquiet.within _⟩

/-- Writing succeeds without a warning when each of its steps does. -/
theorem ends_write (reduction : Reduction) (source : Source) (hfiltered : reduction.filtered = true)
    {raw : Bool} (hraw : reduction.settings.raw = raw) {roster : Roster} {map written : Option Sink}
    {header rows : Sink} {columns : ℕ} {summary : EmitSummary} {table : Incidence}
    (htable : table = { reduction.table with roster })
    (hrenumber : (reduction.table.roster.renumber map).Ends (roster, written) columns)
    (hquietRenumber : (reduction.table.roster.renumber map).Quiet)
    (hheader : (table.emitHeader (.empty none) columns raw).Ends header ())
    (hquietHeader : (table.emitHeader (.empty none) columns raw).Quiet)
    (hrows : (table.emitRows (source reduction.readings) header raw).Ends rows summary)
    (hquietRows : (table.emitRows (source reduction.readings) header raw).Quiet) :
    let after : Reduction := { reduction with table, readings := reduction.readings + 1 }
    (write ⟨reduction, .empty none, map⟩ source).Ends ⟨after, rows, written⟩
        (after.report columns summary) ∧
      (write ⟨reduction, .empty none, map⟩ source).Quiet := by
  intro after
  subst htable hraw
  have hensure := ends_ensureFiltered ⟨reduction, .empty none, map⟩ source hfiltered
  have hnumber := ends_renumber ⟨reduction, .empty none, map⟩ hrenumber hquietRenumber
  have hhead := ends_emitHeader
    ⟨{ reduction with table := { reduction.table with roster } }, .empty none, written⟩
    hheader hquietHeader
  have hbody := ends_emitRows
    ⟨{ reduction with table := { reduction.table with roster } }, header, written⟩ source
    hrows hquietRows
  constructor
  · refine hensure.1.next (hnumber.1.next (hhead.1.next (hbody.1.next ?_)))
    exact Run.ends_done.mpr ⟨rfl, rfl⟩
  · refine hensure.2.next_of_ends hensure.1 (hnumber.2.next_of_ends hnumber.1 ?_)
    exact hhead.2.next_of_ends hhead.1 (hbody.2.next_of_ends hbody.1 (Run.quiet_done _ _))

/-- The report on a matrix that was written after filtering. -/
def matrixReport (reduction : Reduction) (matrix : MatrixText) : Report where
  rows := matrix.rows
  columns := matrix.columns
  excess := (matrix.rows : ℤ) - matrix.columns
  weight := (matrix.body.map fun line => line.columns.length).sum
  passes := reduction.passes
  raw := false

section

variable {settings : Settings} {source : Source} {lines : List String} {reduction : Reduction}

/-- What the passes leave is written as its matrix and column map. -/
theorem Kept.exists_write (h : Kept lines reduction) (hsource : source.Yields lines)
    (hfew : (Incidence.allIdeals lines).card ≤ Arena.sentinel)
    (hraw : reduction.settings.raw = false) {sink : Option Sink}
    (hsink : ∀ fresh ∈ sink, fresh = .empty none) :
    ∃ output matrixText mapText matrix map,
      (write ⟨reduction, .empty none, sink⟩ source).Ends output (matrixReport reduction matrix) ∧
      (write ⟨reduction, .empty none, sink⟩ source).Quiet ∧
      output.matrix.Holds matrixText ∧ output.map.isSome = sink.isSome ∧
      (∀ written ∈ output.map, written.Holds mapText) ∧
      MatrixText.read? matrixText = some matrix ∧ ColumnMap.read? mapText = some map ∧
      matrix.Describes map lines reduction.table := by
  obtain ⟨⟨survivors, hsurvivors, hknown, hphase, htable⟩, -, hsize, hread, hfiltered⟩ := h
  obtain ⟨build, settings, cost, table, passes, filtered, readings⟩ := reduction
  obtain rfl : table = survivors.releaseLists := htable
  have hwellFormed := hsurvivors.represents.wellFormed
  have hsmall : survivors.roster.size < 2 ^ 32 := by
    have hle := (Finset.card_le_card hknown).trans hfew
    rw [hwellFormed.card_known] at hle
    exact hle.trans_lt (by decide)
  -- The columns are given, and with them the survivors can be written.
  have hfresh : ∀ fresh ∈ sink, fresh.Holds [] := by
    intro fresh hfresh
    rw [hsink fresh hfresh]
    exact Sink.holds_empty
  obtain ⟨roster, written, hrenumber, hquietRenumber, hrenumbered, hsome, hmap⟩ :=
    Roster.exists_renumber hphase hwellFormed.values_size hsurvivors.value_ne_one hfresh
  have hwritable := hsurvivors.writable hrenumbered hsmall hsize hread
  obtain ⟨header, hheader, hquietHeader, hholdsHeader⟩ := Incidence.exists_emitHeader
    { survivors.releaseLists with roster } (survivors.roster.column survivors.roster.size)
    Sink.holds_empty
  obtain ⟨rows, hrows, hquietRows, hholdsRows⟩ := Incidence.exists_emitRows
    (Incidence.Emission.writes_of_writable hwritable) (hsource readings) hholdsHeader
  obtain ⟨hends, hquiet⟩ := ends_write
    ⟨build, settings, cost, survivors.releaseLists, passes, filtered, readings⟩ source hfiltered hraw rfl
    hrenumber hquietRenumber hheader hquietHeader hrows hquietRows
  have hweight : ((survivors.matrix lines).body.map fun line => line.columns.length).sum =
      (survivors.usedRows.map fun row => (Relation.rowIdeals lines row).length).sum := by
    simp [Incidence.matrix, Incidence.matrixLine, Function.comp_def]
  refine ⟨⟨⟨build, settings, cost, { survivors.releaseLists with roster }, passes, filtered,
    readings + 1⟩, rows, written⟩, _, _, survivors.matrix lines, columnMap survivors.roster,
    ?_, hquiet, hholdsRows, hsome, hmap, Incidence.read?_matrixText survivors lines,
    read?_mapText _ _, (hsurvivors.describes hread).releaseLists⟩
  rw [matrixReport, hweight, ← hraw]
  exact hends

/-- What filtering leaves is written as its matrix and column map. -/
theorem Filtered.exists_write (h : Filtered lines settings reduction) (hsource : source.Yields lines)
    (hideals : (Incidence.allIdeals lines).card < 2 ^ 31) (hraw : settings.raw = false) :
    ∃ output matrixText mapText matrix map sink,
      (write (freshOutput reduction) source).Ends output (matrixReport reduction matrix) ∧
      (write (freshOutput reduction) source).Quiet ∧
      output.matrix.Holds matrixText ∧ output.map = some sink ∧ sink.Holds mapText ∧
      MatrixText.read? matrixText = some matrix ∧ ColumnMap.read? mapText = some map ∧
      matrix.Describes map lines reduction.table := by
  have hfresh : ∀ fresh ∈ some (Sink.empty none), fresh = .empty none :=
    fun fresh hfresh => (Option.mem_some_iff.mp hfresh).symm
  obtain ⟨output, matrixText, mapText, matrix, map, hends, hquiet, hholds, hsome, hmap, hread,
    hreadMap, hdescribes⟩ := h.kept.exists_write hsource (hideals.le.trans (by decide))
    (h.settings_eq ▸ hraw) hfresh
  obtain ⟨sink, hsink⟩ := Option.isSome_iff_exists.mp hsome
  exact ⟨output, matrixText, mapText, matrix, map, sink, hends, hquiet, hholds, hsink,
    hmap sink hsink, hread, hreadMap, hdescribes⟩

/-- After successful filtering, writing to sinks that take everything succeeds without a warning.  The two
texts can be read, and what they say describes the surviving rows; the report says what was written. -/
theorem write_describes (build : Build) (settings : Settings) (cost : Cost) (hsource : source.Yields lines)
    (hkeep : settings.keptExcess < 2 ^ 63) (hcapacity : settings.blockCapacity ≤ 2 ^ 32)
    (hideals : (Incidence.allIdeals lines).card < 2 ^ 31) (hraw : settings.raw = false)
    (hok : ((new build settings cost).filter source).outcome = .ok ()) :
    let reduction := ((new build settings cost).filter source).state
    let written := write (freshOutput reduction) source
    ∃ matrixText mapText sink matrix map,
      written.outcome = .ok (matrixReport reduction matrix) ∧ written.Quiet ∧
      written.state.matrix.Holds matrixText ∧ written.state.map = some sink ∧ sink.Holds mapText ∧
      MatrixText.read? matrixText = some matrix ∧ ColumnMap.read? mapText = some map ∧
      matrix.Describes map lines reduction.table := by
  intro reduction written
  obtain ⟨after, hends⟩ := Run.exists_ends hok
  have hfiltered : Filtered lines settings reduction := by
    have hstate : reduction = after := hends.1
    rw [hstate]
    exact filtered_of_ends build settings cost hsource hkeep hcapacity hideals hends
  obtain ⟨output, matrixText, mapText, matrix, map, sink, hwritten, hquiet, hmatrix, hmap, hsink,
    hreadMatrix, hreadMap, hdescribes⟩ := hfiltered.exists_write hsource hideals hraw
  obtain ⟨rfl, hreport⟩ := hwritten
  exact ⟨matrixText, mapText, sink, matrix, map, hreport, hquiet, hmatrix, hmap, hsink, hreadMatrix,
    hreadMap, hdescribes⟩

end

theorem write_describes_sample :
    let reduction := ((new .checked sampleSettings .rowFraction).filter (.ofLines Source.sampleLines)).state
    let written := write (freshOutput reduction) (.ofLines Source.sampleLines)
    written.Quiet ∧ ∃ matrixText matrix, written.state.matrix.Holds matrixText ∧
      MatrixText.read? matrixText = some matrix ∧
      written.outcome = .ok (matrixReport reduction matrix) := by
  obtain ⟨matrixText, _, _, matrix, _, hreport, hquiet, hholds, -, -, hread, -⟩ :=
    write_describes .checked sampleSettings .rowFraction (Source.yields_ofLines Source.sampleLines)
      (by decide) (by decide) (by decide +kernel) rfl (by decide +kernel)
  exact ⟨hquiet, matrixText, matrix, hholds, hread, hreport⟩

end Reduction

end SieveFilter
