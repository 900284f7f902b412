import SieveFilter.Proofs.Reduction.Writing

/-!
# Raw runs

In raw form the lines of the surviving rows are written as they are, in the order of the input and each with
a line break after it.  A run is the filtering and the writing after it.
-/

namespace SieveFilter.Reduction

/-- The lines of the used rows, in order. -/
def usedLines (table : Incidence) (lines : List String) : List String :=
  table.usedRows.map fun row => lines.getD row ""

theorem usedLines_congr {table table' : Incidence} (hused : table.used = table'.used)
    (lines : List String) : usedLines table lines = usedLines table' lines := by
  obtain ⟨used, _, _, _, _, _⟩ := table
  obtain ⟨used', _, _, _, _, _⟩ := table'
  obtain rfl : used = used' := hused
  rfl

theorem map_getD_range (lines : List String) :
    (List.range lines.length).map (fun row => lines.getD row "") = lines := by
  apply List.ext_getElem
  · simp
  · intro row hrow hrow'
    rw [List.getElem_map, List.getElem_range, List.getD_eq_getElem?_getD,
      List.getElem?_eq_getElem hrow', Option.getD_some]

/-- The lines of the used rows are lines of the input, in the order of the input. -/
theorem sublist_usedLines {table : Incidence} {lines : List String}
    (hsize : table.size = lines.length) : (usedLines table lines).Sublist lines := by
  have hrows : table.usedRows.Sublist (List.range lines.length) := by
    rw [← hsize]
    exact List.filter_sublist
  have hlines := hrows.map fun row => lines.getD row ""
  rwa [map_getD_range] at hlines

/-- The text of the used rows in raw form. -/
def copiedText (table : Incidence) (lines : List String) : List Char :=
  Text.terminated ((usedLines table lines).map String.toList)

theorem flatMap_lineText (table : Incidence) (lines : List String) :
    table.usedRows.flatMap (Incidence.Emission.lineText lines) = copiedText table lines := by
  rw [copiedText, usedLines, List.map_map, Text.terminated, List.flatMap_map]
  rfl

/-- The report on a raw run, which writes no entries of a matrix. -/
def rawReport (reduction : Reduction) : Report where
  rows := reduction.table.liveRows
  columns := reduction.table.liveIdeals
  excess := reduction.table.excess
  weight := 0
  passes := reduction.passes
  raw := true

/-- The raw form has no header. -/
theorem ends_rawHeader (table : Incidence) (sink : Sink) (columns : ℕ) :
    (table.emitHeader sink columns true).Ends sink () ∧
      (table.emitHeader sink columns true).Quiet :=
  ⟨⟨rfl, rfl⟩, Run.quiet_done _ _⟩

section

variable {settings : Settings} {source : Source} {lines : List String} {reduction : Reduction}

/-- What the passes leave is copied. -/
theorem Kept.exists_copy (h : Kept lines reduction) (hsource : source.Yields lines)
    (hraw : reduction.settings.raw = true) {map : Option Sink}
    (hmap : ∀ sink ∈ map, sink = .empty none) :
    ∃ output, (write ⟨reduction, .empty none, map⟩ source).Ends output (rawReport reduction) ∧
      output.matrix.Holds (copiedText reduction.table lines) ∧
      output.map.isSome = map.isSome ∧
      output.reduction.table.used = reduction.table.used := by
  obtain ⟨⟨survivors, hsurvivors, -, hphase, htable⟩, -, hsize, -, hfiltered⟩ := h
  obtain ⟨build, settings, cost, table, passes, filtered, readings⟩ := reduction
  obtain rfl : table = survivors.releaseLists := htable
  have hconsistent := hsurvivors.represents.consistent
  have hfresh : ∀ sink ∈ map, sink.Holds [] := by
    intro sink hsink
    rw [hmap sink hsink]
    exact Sink.holds_empty
  obtain ⟨roster, written, hrenumber, hquietRenumber, -, hsome, -⟩ :=
    Roster.exists_renumber hphase hconsistent.values_size hsurvivors.value_ne_one hfresh
  obtain ⟨hheader, hquietHeader⟩ := ends_rawHeader { survivors.releaseLists with roster }
    (.empty none) (survivors.roster.column survivors.roster.size)
  have hwrites := Incidence.Emission.writes_raw { survivors.releaseLists with roster } hsize
    hconsistent.liveRows_eq
  obtain ⟨rows, hrows, hquietRows, hholds⟩ :=
    Incidence.exists_emitRows hwrites (hsource readings) Sink.holds_empty
  obtain ⟨hends, -⟩ := ends_write
    ⟨build, settings, cost, survivors.releaseLists, passes, filtered, readings⟩ source hfiltered hraw rfl
    hrenumber hquietRenumber hheader hquietHeader hrows hquietRows
  have hreport : report
      ⟨build, settings, cost, { survivors.releaseLists with roster }, passes, filtered, readings + 1⟩
      (survivors.roster.column survivors.roster.size)
      ⟨survivors.liveRows, (survivors.usedRows.map fun _ => 0).sum⟩ =
        rawReport ⟨build, settings, cost, survivors.releaseLists, passes, filtered, readings⟩ := by
    simp only at hraw
    simp [report, rawReport, hsurvivors.column_size, hraw, Incidence.excess, Incidence.releaseLists]
  refine ⟨_, hreport ▸ hends, ?_, hsome, rfl⟩
  rw [← flatMap_lineText]
  exact hholds

/-- What filtering leaves is copied. -/
theorem Filtered.exists_copy (h : Filtered lines settings reduction) (hsource : source.Yields lines)
    (hraw : settings.raw = true) {map : Option Sink} (hmap : ∀ sink ∈ map, sink = .empty none) :
    ∃ output, (write ⟨reduction, .empty none, map⟩ source).Ends output (rawReport reduction) ∧
      output.matrix.Holds (copiedText reduction.table lines) ∧
      output.reduction.table.used = reduction.table.used := by
  obtain ⟨output, hends, hholds, -, hused⟩ :=
    h.kept.exists_copy hsource (h.settings_eq ▸ hraw) hmap
  exact ⟨output, hends, hholds, hused⟩

/-- A run whose filtering succeeds goes on with the writing. -/
theorem ends_run {start after : Reduction} {matrix : Sink} {map : Option Sink}
    {output : Output} {report : Report} (hends : (start.filter source).Ends after ())
    (hwrite : (write ⟨after, matrix, map⟩ source).Ends output report) :
    (run ⟨start, matrix, map⟩ source).Ends output report :=
  (hends.within _).next hwrite

theorem exists_filter_of_run {start : Reduction} {matrix : Sink} {map : Option Sink}
    {report : Report} (hok : (run ⟨start, matrix, map⟩ source).outcome = .ok report) :
    ∃ after, (start.filter source).Ends after () := by
  obtain ⟨output, hends⟩ := Run.exists_ends hok
  obtain ⟨_, _, hfilter, -⟩ := Run.ends_next.mp hends
  obtain ⟨after, hafter, -⟩ := Run.ends_within.mp hfilter
  exact ⟨after, hafter⟩

end

end SieveFilter.Reduction
