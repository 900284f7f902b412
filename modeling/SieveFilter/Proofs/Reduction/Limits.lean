import SieveFilter.Proofs.Incidence.Limits
import SieveFilter.Proofs.Reduction.Calls

/-!
# Writes with a limit

A write to sinks with limits writes beginnings of the two texts that it would write without them: nothing of
the matrix as long as the column map is not complete.  Columns are given once, whether or not that write
succeeds, so no later one brings anything to its sinks.
-/

namespace SieveFilter.Reduction

variable {reduction : Reduction} {source : Source} {lines : List String} {roster : Roster}
  {columns : ℕ} {map matrix : Sink} {summary : EmitSummary}

/-! ## Sinks that take everything -/

/-- The parts of a write to sinks that take everything: the columns that it gives, and the two texts. -/
structure Full (reduction : Reduction) (source : Source) (roster : Roster) (columns : ℕ)
    (map matrix : Sink) (summary : EmitSummary) : Prop where
  renumber : (reduction.table.roster.renumber (some (.empty none))).Ends (roster, some map) columns
  emit : ((reduction.withRoster roster).table.emit (source reduction.readings) (.empty none) columns
    reduction.settings.raw).Ends matrix summary

/-- What the passes leave is written to sinks that take everything, in either form. -/
theorem Kept.exists_ends (h : Kept lines reduction) (hsource : source.Yields lines)
    (hfew : (Incidence.allIdeals lines).card ≤ Arena.sentinel) :
    ∃ output report, (write (freshOutput reduction) source).Ends output report ∧
      output.map.isSome = true := by
  have hfresh : ∀ sink ∈ some (Sink.empty none), sink = .empty none :=
    fun sink hsink => (Option.mem_some_iff.mp hsink).symm
  cases hraw : reduction.settings.raw with
  | false =>
    obtain ⟨output, -, -, matrix, -, hends, -, -, hsome, -⟩ :=
      h.exists_write hsource hfew hraw hfresh
    exact ⟨output, _, hends, hsome⟩
  | true =>
    obtain ⟨output, hends, -, hsome, -⟩ := h.exists_copy hsource hraw hfresh
    exact ⟨output, _, hends, hsome⟩

theorem Kept.exists_full (h : Kept lines reduction) (hsource : source.Yields lines)
    (hfew : (Incidence.allIdeals lines).card ≤ Arena.sentinel) :
    ∃ roster columns map matrix summary,
      Full reduction source roster columns map matrix summary := by
  obtain ⟨output, report, hwrite, hsome⟩ := h.exists_ends hsource hfew
  rcases Run.ends_or_fails (reduction.table.roster.renumber (some (.empty none))) with
    ⟨columns, hrenumber⟩ | ⟨cause, hfails⟩
  swap
  · exact absurd hwrite
      (write_of_fails_renumber h.filtered_eq hfails (.empty none) source).not_ends
  obtain ⟨hreport, -, hmap⟩ := write_of_ends_renumber h.filtered_eq hrenumber (.empty none) source
  rw [← hwrite.1] at hsome
  obtain ⟨map, hsink⟩ := Option.isSome_iff_exists.mp (hmap ▸ hsome)
  have hstate : (reduction.table.roster.renumber (some (.empty none))).state =
      ((reduction.table.roster.renumber (some (.empty none))).state.1, some map) :=
    Prod.ext rfl hsink
  rcases Run.ends_or_fails ((reduction.withRoster _).table.emit (source reduction.readings)
    (.empty none) columns reduction.settings.raw) with ⟨summary, hemit⟩ | ⟨cause, hfails⟩
  swap
  · rw [hfails.2] at hreport
    have hbroken := hwrite.2.symm.trans hreport
    cases hbroken
  exact ⟨_, columns, map, _, summary, hstate ▸ hrenumber, hemit⟩

/-- Neither sink has a limit. -/
theorem Full.free (h : Full reduction source roster columns map matrix summary) :
    map.limit = none ∧ matrix.limit = none := by
  have hmap := (Roster.limited_renumber reduction.table.roster (some (.empty none)) 0).grows.1
  have hmatrix := (Incidence.limited_emit (reduction.withRoster roster).table
    (source reduction.readings) (.empty none) columns reduction.settings.raw 0).grows.1
  rw [h.renumber.1] at hmap
  rw [h.emit.1] at hmatrix
  exact ⟨hmap, hmatrix⟩

theorem Full.write (h : Full reduction source roster columns map matrix summary)
    (hfiltered : reduction.filtered = true) :
    let full := Reduction.write (freshOutput reduction) source
    full.outcome = .ok (reduction.report columns summary) ∧ full.state.matrix = matrix ∧
      full.state.map = some map := by
  obtain ⟨hreport, hmatrix, hmap⟩ := write_of_ends_renumber hfiltered h.renumber (.empty none) source
  rw [h.emit.2] at hreport
  exact ⟨hreport, hmatrix.trans h.emit.1, hmap⟩

/-! ## Sinks with limits -/

/-- The output of a reduction to fresh sinks with limits. -/
def limitedOutput (reduction : Reduction) (limit mapLimit : ℕ) : Output :=
  ⟨reduction, .empty (some limit), some (.empty (some mapLimit))⟩

section

variable {limit mapLimit : ℕ}

/-- A column map within its limit is written as it is without one. -/
theorem Full.renumber_of_fits (h : Full reduction source roster columns map matrix summary)
    (hmap : map.written.size ≤ mapLimit) :
    (reduction.table.roster.renumber (some (.empty (some mapLimit)))).Ends
      (roster, some (map.cut mapLimit)) columns := by
  have hlimited := Roster.limited_renumber reduction.table.roster (some (.empty none)) mapLimit
  rw [Option.map_some, Sink.cut_empty] at hlimited
  exact hlimited.ends_of_fits h.renumber ⟨h.free.1, hmap⟩

/-- A column map that passes its limit makes the renumbering fail. -/
theorem Full.renumber_of_exceeds (h : Full reduction source roster columns map matrix summary)
    (hmap : mapLimit < map.written.size) :
    ∃ stopped, (reduction.table.roster.renumber (some (.empty (some mapLimit)))).Fails
      (stopped, some (map.cut mapLimit)) (.fault .full) := by
  have hlimited := Roster.limited_renumber reduction.table.roster (some (.empty none)) mapLimit
  rw [Option.map_some, Sink.cut_empty] at hlimited
  obtain ⟨⟨stopped, written⟩, hfails, hsink⟩ := hlimited.fails_of_exceeds
    (Sink.fits_empty mapLimit) h.renumber ⟨h.free.1, hmap⟩
  obtain rfl : written = _ := Roster.eq_some_of_sink hsink
  exact ⟨stopped, hfails⟩

/-- The column map passes its limit: nothing is written of the matrix. -/
theorem Full.write_of_map_exceeds (h : Full reduction source roster columns map matrix summary)
    (hfiltered : reduction.filtered = true) (hmap : mapLimit < map.written.size) :
    let limited := Reduction.write (limitedOutput reduction limit mapLimit) source
    limited.outcome = .error (.fault .full) ∧ limited.state.map = some (map.cut mapLimit) ∧
      limited.state.matrix = .empty (some limit) := by
  obtain ⟨stopped, hfails⟩ := h.renumber_of_exceeds hmap
  obtain ⟨hstate, houtcome⟩ := write_of_fails_renumber hfiltered hfails (.empty (some limit)) source
  exact ⟨houtcome, congrArg Output.map hstate, congrArg Output.matrix hstate⟩

/-- The column map is within its limit: it is written, and then as much of the matrix as fits. -/
theorem Full.write_of_map_fits (h : Full reduction source roster columns map matrix summary)
    (hfiltered : reduction.filtered = true) (hmap : map.written.size ≤ mapLimit) :
    let limited := Reduction.write (limitedOutput reduction limit mapLimit) source
    limited.outcome = (if matrix.written.size ≤ limit then .ok (reduction.report columns summary)
        else .error (.fault .full)) ∧
      limited.state.map = some (map.cut mapLimit) ∧ limited.state.matrix = matrix.cut limit := by
  obtain ⟨hreport, hmatrix, hmapSink⟩ := write_of_ends_renumber hfiltered (h.renumber_of_fits hmap)
    (.empty (some limit)) source
  have hlimited := Incidence.limited_emit (reduction.withRoster roster).table
    (source reduction.readings) (.empty none) columns reduction.settings.raw limit
  rw [Sink.cut_empty] at hlimited
  by_cases hfits : matrix.written.size ≤ limit
  · obtain ⟨hstate, houtcome⟩ := hlimited.ends_of_fits h.emit ⟨h.free.2, hfits⟩
    rw [houtcome] at hreport
    rw [if_pos hfits]
    exact ⟨hreport, hmapSink, hmatrix.trans hstate⟩
  · obtain ⟨stopped, ⟨hstate, houtcome⟩, hsink⟩ := hlimited.fails_of_exceeds
      (Sink.fits_empty limit) h.emit ⟨h.free.2, Nat.not_le.mp hfits⟩
    rw [houtcome] at hreport
    rw [if_neg hfits]
    exact ⟨hreport, hmapSink, (hmatrix.trans hstate).trans hsink⟩

/-- Both texts are within their limits. -/
theorem Full.write_of_fits (h : Full reduction source roster columns map matrix summary)
    (hfiltered : reduction.filtered = true) (hmap : map.written.size ≤ mapLimit)
    (hmatrix : matrix.written.size ≤ limit) :
    let limited := Reduction.write (limitedOutput reduction limit mapLimit) source
    limited.outcome = .ok (reduction.report columns summary) ∧
      limited.state.map = some ⟨map.written, some mapLimit⟩ ∧
      limited.state.matrix = ⟨matrix.written, some limit⟩ := by
  obtain ⟨houtcome, hmapSink, hmatrixSink⟩ := h.write_of_map_fits hfiltered hmap
  rw [if_pos hmatrix] at houtcome
  rw [Sink.cut, Sink.extract_of_le hmap] at hmapSink
  rw [Sink.cut, Sink.extract_of_le hmatrix] at hmatrixSink
  exact ⟨houtcome, hmapSink, hmatrixSink⟩

/-- The column map is within its limit, and the matrix passes it. -/
theorem Full.write_of_matrix_exceeds
    (h : Full reduction source roster columns map matrix summary)
    (hfiltered : reduction.filtered = true) (hmap : map.written.size ≤ mapLimit)
    (hmatrix : limit < matrix.written.size) :
    let limited := Reduction.write (limitedOutput reduction limit mapLimit) source
    limited.outcome = .error (.fault .full) ∧
      limited.state.map = some ⟨map.written, some mapLimit⟩ ∧
      limited.state.matrix = matrix.cut limit := by
  obtain ⟨houtcome, hmapSink, hmatrixSink⟩ := h.write_of_map_fits hfiltered hmap
  rw [if_neg (Nat.not_le.mpr hmatrix)] at houtcome
  rw [Sink.cut, Sink.extract_of_le hmap] at hmapSink
  exact ⟨houtcome, hmapSink, hmatrixSink⟩

/-- A write succeeds exactly when both texts are within their limits. -/
theorem Full.write_ok_iff (h : Full reduction source roster columns map matrix summary)
    (hfiltered : reduction.filtered = true) :
    (∃ report, (Reduction.write (limitedOutput reduction limit mapLimit) source).outcome =
      .ok report) ↔ map.written.size ≤ mapLimit ∧ matrix.written.size ≤ limit := by
  constructor
  · rintro ⟨report, hok⟩
    by_contra hlong
    have hfails : (Reduction.write (limitedOutput reduction limit mapLimit) source).outcome =
        .error (.fault .full) := by
      by_cases hmap : map.written.size ≤ mapLimit
      · exact (h.write_of_matrix_exceeds hfiltered hmap (by omega)).1
      · exact (h.write_of_map_exceeds hfiltered (by omega)).1
    cases hfails.symm.trans hok
  · rintro ⟨hmap, hmatrix⟩
    exact ⟨_, (h.write_of_fits hfiltered hmap hmatrix).1⟩

end

/-- A write that succeeds has written what it writes without limits, whatever the limits were. -/
theorem write_unlimited (hfiltered : reduction.filtered = true) {limit : Option ℕ}
    {limits : Option (Option ℕ)} {report : Report}
    (hok : (Reduction.write ⟨reduction, .empty limit, limits.map Sink.empty⟩ source).outcome =
      .ok report) :
    let limited := Reduction.write ⟨reduction, .empty limit, limits.map Sink.empty⟩ source
    let full := Reduction.write ⟨reduction, .empty none, limits.map fun _ => .empty none⟩ source
    full.outcome = .ok report ∧ full.state.matrix.written = limited.state.matrix.written := by
  rcases Run.ends_or_fails (reduction.table.roster.renumber (limits.map Sink.empty)) with
    ⟨columns, hends⟩ | ⟨cause, hfails⟩
  swap
  · have hbroken := (write_of_fails_renumber hfiltered hfails (.empty limit) source).2
    cases hbroken.symm.trans hok
  obtain ⟨written, hfull⟩ := Roster.exists_of_ends_renumber hends
  obtain ⟨hreport, hmatrix, -⟩ := write_of_ends_renumber hfiltered hends (.empty limit) source
  obtain ⟨hreport', hmatrix', -⟩ := write_of_ends_renumber hfiltered hfull (.empty none) source
  rcases Run.ends_or_fails ((reduction.withRoster _).table.emit (source reduction.readings)
    (.empty limit) columns reduction.settings.raw) with ⟨summary, hemit⟩ | ⟨cause, hfails⟩
  swap
  · rw [hfails.2] at hreport
    cases hreport.symm.trans hok
  obtain ⟨sink, hemitFull, hsame⟩ := Incidence.exists_of_ends_emit hemit
  rw [hemit.2] at hreport
  rw [hemitFull.2] at hreport'
  refine ⟨hreport'.trans (hreport.symm.trans hok), ?_⟩
  rw [hmatrix, hmatrix', hemitFull.1]
  exact hsame

/-- A completed reduction that is written is left with its roster renumbered, whatever the write comes to. -/
theorem renumbered_after_write (output : Output) (hfiltered : output.reduction.filtered = true)
    (source : Source) :
    (write output source).state.reduction.filtered = true ∧
      (write output source).state.reduction.table.roster.phase = .renumbered := by
  obtain ⟨roster, readings, hphase, hstate⟩ := write_of_filtered_state hfiltered source
  rw [hstate]
  exact ⟨hfiltered, hphase⟩

/-- Later writes fail, write nothing and change nothing. -/
theorem write_of_written (output : Output) (hfiltered : output.reduction.filtered = true)
    (source : Source) {calls : List Call} (hcalls : .filter ∉ calls) (sink : Sink)
    (sink? : Option Sink) :
    let after := (write output source).state.reduction
    (write ⟨afterCalls source after calls, sink, sink?⟩ source).Fails ⟨after, sink, sink?⟩
      (.misuse .renumberedTwice) := by
  intro after
  obtain ⟨hfilteredAfter, hphase⟩ := renumbered_after_write output hfiltered source
  rw [afterCalls_of_renumbered hfilteredAfter hphase source hcalls]
  exact write_of_renumbered ⟨after, sink, sink?⟩ hfilteredAfter hphase source

end SieveFilter.Reduction
