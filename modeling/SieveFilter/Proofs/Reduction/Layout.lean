import SieveFilter.Proofs.Incidence.Layout
import SieveFilter.Proofs.Reduction.Copying
import SieveFilter.Proofs.Reduction.Failing

/-!
# Layout of a reduction

Nothing that a run reports or writes depends on the capacity of blocks or on the number of ideals that the
roster is laid out for, unless a list is too long for a block.  Reductions that differ in the layout only go
through their passes alongside each other, and the writing reads no list.
-/

namespace SieveFilter

/-! ## Writing stores no lists -/

theorem Roster.columnOf_error {roster : Roster} {ideal : Ideal} {cause : Failure}
    (h : roster.columnOf ideal = .error cause) : cause = .misuse .columnBeforeRenumbering := by
  simp only [columnOf] at h
  split at h
  · exact (Except.error.inj h).symm
  · split at h
    · cases h
    · cases h

namespace Roster

theorem Numbering.not_starves_writeLine (numbering : Numbering) (ideal : Ideal) :
    ¬ (numbering.writeLine ideal).Starves := by
  obtain ⟨roster, map, columns, singletons⟩ := numbering
  simp only [writeLine]
  split
  · exact Run.not_starves_done
  · split
    · exact Run.not_starves_done
    · exact Run.not_starves_fail id

theorem Numbering.not_starves_take (numbering : Numbering) (slot : ℕ) :
    ¬ (numbering.take slot).Starves := by
  obtain ⟨roster, map, columns, singletons⟩ := numbering
  simp only [take]
  split
  · exact Run.not_starves_done
  · split
    · exact Run.not_starves_done
    · exact Run.not_starves_next (not_starves_writeLine _ _)
        fun _ _ => Run.not_starves_done

theorem not_starves_renumber (roster : Roster) (map : Option Sink) :
    ¬ (roster.renumber map).Starves := by
  simp only [renumber]
  split
  next cause hcause =>
    simp only [beginRenumbering] at hcause
    split at hcause
    · cases hcause
      exact Run.not_starves_fail id
    · cases hcause
  next roster' _ =>
    rw [Run.starves_within]
    apply Run.not_starves_next
    · exact Run.not_starves_each Numbering.not_starves_take _ _
    · intro numbering _
      rw [Run.starves_after]
      exact Run.not_starves_done

end Roster

namespace Incidence

namespace Emission

theorem not_starves_write (emission : Emission) (text : String) :
    ¬ (emission.write text).Starves := by
  obtain ⟨sink, met, rows, weight⟩ := emission
  simp only [write]
  split
  · exact Run.not_starves_done
  · exact Run.not_starves_fail id

theorem not_starves_writeColumns (roster : Roster) (row : ℕ) (emission : Emission)
    (ideals : List Ideal) : ¬ (writeColumns roster row emission ideals).Starves := by
  induction ideals generalizing emission with
  | nil => exact emission.not_starves_write "\n"
  | cons ideal rest ih =>
    simp only [writeColumns]
    split
    next cause hcause =>
      rw [Roster.columnOf_error hcause]
      exact Run.not_starves_fail id
    next => exact Run.not_starves_fail id
    next => exact Run.not_starves_next (not_starves_write _ _) fun after _ => ih after

theorem not_starves_copyRow (emission : Emission) (line : String) :
    ¬ (emission.copyRow line).Starves :=
  Run.not_starves_next (not_starves_write _ _) fun _ _ => Run.not_starves_done

theorem not_starves_writeRow (roster : Roster) (emission : Emission) (row : ℕ) (line : String) :
    ¬ (writeRow roster emission row line).Starves := by
  simp only [writeRow]
  split
  · exact Run.not_starves_fail id
  · apply Run.not_starves_next (not_starves_write _ _)
    intro after _
    apply Run.not_starves_next (not_starves_writeColumns _ _ after _)
    intro written _
    exact Run.not_starves_done

theorem not_starves_takeLine (emission : Emission) (table : Incidence) (raw : Bool)
    (line : String) : ¬ (emission.takeLine table raw line).Starves := by
  simp only [takeLine, Run.starves_afterAll]
  cases table.isUsed emission.met with
  | false => exact Run.not_starves_done
  | true =>
    cases raw with
    | true => exact not_starves_copyRow _ _
    | false => exact not_starves_writeRow _ _ _ _

theorem not_starves_take (table : Incidence) (raw : Bool) (emission : Emission) (event : Event) :
    ¬ (take table raw emission event).Starves := by
  cases event with
  | opened path =>
    rw [take, Run.starves_after]
    exact Run.not_starves_done
  | fault cause =>
    simp only [take]
    split
    · exact Run.not_starves_done
    · exact Run.not_starves_fail id
  | line line =>
    simp only [take]
    split
    · exact Run.not_starves_done
    · exact emission.not_starves_takeLine table raw line

end Emission

theorem not_starves_emitHeader (table : Incidence) (sink : Sink) (columns : ℕ) (raw : Bool) :
    ¬ (table.emitHeader sink columns raw).Starves := by
  rw [emitHeader, Run.starves_within]
  cases raw with
  | true => exact Run.not_starves_done
  | false =>
    rw [if_neg Bool.false_ne_true]
    exact Emission.not_starves_write _ _

theorem not_starves_emitRows (table : Incidence) (events : List Event) (sink : Sink)
    (raw : Bool) : ¬ (table.emitRows events sink raw).Starves := by
  rw [emitRows, Run.starves_within]
  apply Run.not_starves_next
  · rw [Run.starves_after]
    exact Run.not_starves_each (Emission.not_starves_take table raw) _ events
  · intro emission _
    split
    · exact Run.not_starves_done
    · exact Run.not_starves_fail id

end Incidence

namespace Reduction

theorem ensureFiltered_of_filtered {output : Output} (hfiltered : output.reduction.filtered = true)
    (source : Source) : ensureFiltered output source = .done output () := by
  obtain ⟨⟨build, settings, cost, table, passes, filtered, readings⟩, matrix, map⟩ := output
  obtain rfl : filtered = true := hfiltered
  rfl

/-- What follows on the passes does not starve. -/
theorem not_starves_write (output : Output) (source : Source)
    (hfiltered : output.reduction.filtered = true) : ¬ (write output source).Starves := by
  rw [write, ensureFiltered_of_filtered hfiltered, Run.next_done]
  apply Run.not_starves_next
  · exact Roster.not_starves_renumber _ _
  intro output columns
  apply Run.not_starves_next
  · exact Incidence.not_starves_emitHeader _ _ _ _
  intro output _
  apply Run.not_starves_next
  · exact Incidence.not_starves_emitRows _ _ _ _
  intro output emitted
  exact Run.not_starves_done

/-! ## Passes -/

/-- The reduction with another layout and another table. -/
def relaid (reduction : Reduction) (capacity : ℕ) (expected : Option ℕ) (table : Incidence) :
    Reduction :=
  { reduction with
    settings := { reduction.settings with blockCapacity := capacity, expectedIdeals := expected }
    table }

/-- Two reductions that differ in the layout only, that of the second one being given. -/
def Twins (capacity : ℕ) (expected : Option ℕ) (reduction reduction' : Reduction) : Prop :=
  ∃ table, Incidence.Alike reduction.table table ∧
    reduction' = reduction.relaid capacity expected table

namespace Twins

variable {capacity : ℕ} {expected : Option ℕ} {reduction reduction' : Reduction} {source : Source}
  {lines : List String}

theorem load (h : Twins capacity expected reduction reduction') (hsource : source.Yields lines)
    (hready : reduction.table.Ready) (hready' : reduction'.table.Ready)
    (hlaid : reduction.table.arena.capacity ≤ Arena.maxCapacity)
    (hlaid' : reduction'.table.arena.capacity ≤ Arena.maxCapacity)
    (hfew : (Incidence.allIdeals lines).card ≤ Arena.sentinel) (bounds : Bounds) :
    Run.Alongside (Twins capacity expected) (reduction.load source bounds)
      (reduction'.load source bounds) := by
  obtain ⟨build, settings, cost, table, passes, filtered, readings⟩ := reduction
  obtain ⟨table', htable, rfl⟩ := h
  have hload := htable.load hready hready' (hsource readings) hlaid hlaid' hfew build bounds
  exact hload.within fun loaded loaded' hloaded => ⟨loaded', hloaded, rfl⟩

theorem checkInitialExcess (h : Twins capacity expected reduction reduction') (final : Bool) :
    Run.Alongside (Twins capacity expected) (reduction.checkInitialExcess final)
      (reduction'.checkInitialExcess final) := by
  obtain ⟨build, settings, cost, table, passes, filtered, readings⟩ := reduction
  obtain ⟨table', htable, rfl⟩ := h
  have hrows : table.liveRows = table'.liveRows := htable.liveRows_eq
  have hideals : table.liveIdeals = table'.liveIdeals := htable.liveIdeals_eq
  simp only [Reduction.checkInitialExcess, relaid, hrows, hideals]
  refine .ite (fun _ => ?_) fun _ => .done ⟨table', htable, rfl⟩
  split
  next => exact .fail ⟨table', htable, rfl⟩
  next => exact .ite (fun _ => .fail ⟨table', htable, rfl⟩) fun _ => .done ⟨table', htable, rfl⟩

theorem prune (h : Twins capacity expected reduction reduction') (final : Bool) :
    Run.Alongside (Twins capacity expected) (reduction.prune final) (reduction'.prune final) := by
  obtain ⟨build, settings, cost, table, passes, filtered, readings⟩ := reduction
  obtain ⟨table', htable, rfl⟩ := h
  have hpruned := htable.prune settings.keptExcess final cost
  let first : Reduction := ⟨build, settings, cost, table, passes, filtered, readings⟩
  let second : Reduction := first.relaid capacity expected table'
  have hgoesOn (hfits : first.CanPrune final table) (hfits' : second.CanPrune final table') :
      Run.Alongside (Twins capacity expected) (first.prune final) (second.prune final) := by
    have hends : (first.prune final).Ends _ () := ends_prune.mpr ⟨hfits, rfl⟩
    have hends' : (second.prune final).Ends _ () := ends_prune.mpr ⟨hfits', rfl⟩
    refine .of_eq (hends.2.trans hends'.2.symm) ?_
    rw [hends.1, hends'.1]
    exact ⟨_, hpruned, rfl⟩
  rcases htable.overflow? settings.keptExcess final cost with
    ⟨hnone, hnone'⟩ | ⟨stopped, stopped', notices, notices', halike, hsome, hsome'⟩
  · exact hgoesOn (fun _ => hnone) fun _ => hnone'
  · cases htraps : build.traps with
    | false =>
      have hnever : build.traps ≠ true := by rw [htraps]; exact Bool.false_ne_true
      exact hgoesOn (fun hyes => absurd hyes hnever) fun hyes => absurd hyes hnever
    | true =>
      have hfails : (first.prune final).Fails _ _ :=
        fails_prune.mpr ⟨htraps, rfl, stopped, notices, hsome, rfl⟩
      have hfails' : (second.prune final).Fails _ _ :=
        fails_prune.mpr ⟨htraps, rfl, stopped', notices', hsome', rfl⟩
      refine .of_eq (hfails.2.trans hfails'.2.symm) ?_
      rw [hfails.1, hfails'.1]
      exact ⟨stopped', halike, rfl⟩

theorem checkExcess (h : Twins capacity expected reduction reduction') :
    Run.Alongside (Twins capacity expected) reduction.checkExcess reduction'.checkExcess := by
  obtain ⟨table', htable, rfl⟩ := h
  have hstate : Twins capacity expected reduction (reduction.relaid capacity expected table') :=
    ⟨table', htable, rfl⟩
  simp only [Reduction.checkExcess, htable.liveRows_eq, htable.liveIdeals_eq]
  exact .ite (fun _ => .fail hstate) fun _ => .done hstate

theorem releaseLists (h : Twins capacity expected reduction reduction') :
    Twins capacity expected { reduction with table := reduction.table.releaseLists }
      { reduction' with table := reduction'.table.releaseLists } := by
  obtain ⟨table', htable, rfl⟩ := h
  exact ⟨table'.releaseLists, htable.releaseLists, rfl⟩

theorem resetRoster (h : Twins capacity expected reduction reduction') :
    Twins capacity expected { reduction with table := reduction.table.resetRoster }
      { reduction' with table := reduction'.table.resetRoster } := by
  obtain ⟨table', htable, rfl⟩ := h
  exact ⟨table'.resetRoster, htable.resetRoster, rfl⟩

theorem complete (h : Twins capacity expected reduction reduction') :
    Run.Alongside (Twins capacity expected) reduction.complete reduction'.complete := by
  obtain ⟨table', htable, rfl⟩ := h
  exact .done ⟨table', htable, rfl⟩

theorem pass (h : Twins capacity expected reduction reduction') (hsource : source.Yields lines)
    (hready : reduction.table.Ready) (hready' : reduction'.table.Ready)
    (hlaid : reduction.table.arena.capacity ≤ Arena.maxCapacity)
    (hlaid' : reduction'.table.arena.capacity ≤ Arena.maxCapacity)
    (hfew : (Incidence.allIdeals lines).card ≤ Arena.sentinel) (bounds : Bounds) :
    Run.Alongside (Twins capacity expected) (reduction.pass source bounds)
      (reduction'.pass source bounds) := by
  obtain ⟨build, settings, cost, table, passes, filtered, readings⟩ := reduction
  obtain ⟨table', htable, rfl⟩ := h
  have hbegun : Twins capacity expected ⟨build, settings, cost, table, passes + 1, filtered, readings⟩
      (relaid ⟨build, settings, cost, table, passes + 1, filtered, readings⟩ capacity expected table') :=
    ⟨table', htable, rfl⟩
  apply Run.Alongside.after
  apply (hbegun.load hsource hready hready' hlaid hlaid' hfew bounds).next
  intro loaded loaded' summary _ _ hloaded
  apply ((hloaded.checkInitialExcess bounds.admitAll).after _ _).next
  intro checked checked' _ _ _ hchecked
  apply (hchecked.prune bounds.admitAll).next
  intro pruned pruned' _ _ _ hpruned
  apply hpruned.checkExcess.next
  intro ended ended' _ _ _ hended
  exact .done hended.releaseLists

end Twins

section

variable {source : Source} {lines : List String}

theorem alongside_filter (build : Build) (settings : Settings) (cost : Cost) (hsource : source.Yields lines)
    (hcapacity : settings.blockCapacity ≤ 2 ^ 32) {capacity : ℕ} (hcapacity' : capacity ≤ 2 ^ 32)
    (expected : Option ℕ) (hideals : (Incidence.allIdeals lines).card < 2 ^ 31) :
    let settings' := { settings with blockCapacity := capacity, expectedIdeals := expected }
    Run.Alongside (Twins capacity expected) ((new build settings cost).filter source)
      ((new build settings' cost).filter source) := by
  intro settings'
  have hfew : (Incidence.allIdeals lines).card ≤ Arena.sentinel := hideals.le.trans (by decide)
  have hready : (new build settings cost).table.Ready := Incidence.ready_new _ _
  have hready' : (new build settings' cost).table.Ready := Incidence.ready_new _ _
  have hlaid := laid_new build cost hcapacity
  have hlaid' : (new build settings' cost).table.arena.capacity ≤ Arena.maxCapacity :=
    laid_new build cost hcapacity'
  have hstart : Twins capacity expected (new build settings cost) (new build settings' cost) :=
    ⟨_, Incidence.alike_new settings.rows settings.blockCapacity capacity, rfl⟩
  apply ((hstart.pass hsource hready hready' hlaid hlaid' hfew
    settings.initialBounds).after _ _).next
  intro first first' _ hends hends' hfirst
  apply Run.Alongside.ite
  · intro _
    exact hfirst.complete
  · intro hrestricted
    obtain ⟨-, hnarrowed⟩ := narrowed_of_ends hsource hready hlaid hfew
      (Bool.eq_false_iff.mpr hrestricted) hends
    obtain ⟨-, hnarrowed'⟩ := narrowed_of_ends hsource hready' hlaid' hfew
      (Bool.eq_false_iff.mpr hrestricted) hends'
    apply (hfirst.resetRoster.pass hsource hnarrowed.ready hnarrowed'.ready
      (hnarrowed.capacity_eq.trans_le hlaid) (hnarrowed'.capacity_eq.trans_le hlaid') hfew .none).next
    intro second second' _ _ _ hsecond
    exact hsecond.complete

end

/-! ## Runs -/

/-- Two outputs with the same texts, of reductions that differ in the layout only. -/
structure Paired (capacity : ℕ) (expected : Option ℕ) (output output' : Output) : Prop where
  reduction : Twins capacity expected output.reduction output'.reduction
  matrix_eq : output.matrix = output'.matrix
  map_eq : output.map = output'.map

namespace Paired

variable {capacity : ℕ} {expected : Option ℕ} {output output' : Output}

theorem renumber (h : Paired capacity expected output output') :
    Run.Alongside (Paired capacity expected) (Reduction.renumber output)
      (Reduction.renumber output') := by
  obtain ⟨⟨build, settings, cost, table, passes, filtered, readings⟩, matrix, map⟩ := output
  obtain ⟨reduction', matrix', map'⟩ := output'
  obtain ⟨⟨table', htable, rfl⟩, hmatrix, hmap⟩ := h
  obtain rfl : matrix = matrix' := hmatrix
  obtain rfl : map = map' := hmap
  have hroster : table.roster = table'.roster := htable.roster_eq
  have hrenumber : Run.Alongside Eq (table.roster.renumber map) (table'.roster.renumber map) := by
    rw [hroster]
    exact .refl _
  apply (hrenumber.within ?_).after
  rintro ⟨roster, map⟩ _ rfl
  exact ⟨⟨{ table' with roster }, htable.withRoster roster, rfl⟩, rfl, rfl⟩

theorem emitHeader (h : Paired capacity expected output output') (columns : ℕ) :
    Run.Alongside (Paired capacity expected) (Reduction.emitHeader output columns)
      (Reduction.emitHeader output' columns) := by
  obtain ⟨reduction, matrix, map⟩ := output
  obtain ⟨reduction', matrix', map'⟩ := output'
  obtain ⟨⟨table', htable, rfl⟩, hmatrix, hmap⟩ := h
  obtain rfl : matrix = matrix' := hmatrix
  obtain rfl : map = map' := hmap
  have hheader : Run.Alongside Eq (reduction.table.emitHeader matrix columns reduction.settings.raw)
      (table'.emitHeader matrix columns reduction.settings.raw) := by
    rw [htable.emitHeader_eq]
    exact .refl _
  apply (hheader.within ?_).after
  rintro sink _ rfl
  exact ⟨⟨table', htable, rfl⟩, rfl, rfl⟩

theorem emitRows (h : Paired capacity expected output output') (source : Source) :
    Run.Alongside (Paired capacity expected) (Reduction.emitRows output source)
      (Reduction.emitRows output' source) := by
  obtain ⟨reduction, matrix, map⟩ := output
  obtain ⟨reduction', matrix', map'⟩ := output'
  obtain ⟨⟨table', htable, rfl⟩, hmatrix, hmap⟩ := h
  obtain rfl : matrix = matrix' := hmatrix
  obtain rfl : map = map' := hmap
  have hrows : Run.Alongside Eq
      (reduction.table.emitRows (source reduction.readings) matrix reduction.settings.raw)
      (table'.emitRows (source reduction.readings) matrix reduction.settings.raw) := by
    rw [htable.emitRows_eq]
    exact .refl _
  apply hrows.within
  rintro sink _ rfl
  exact ⟨⟨table', htable, rfl⟩, rfl, rfl⟩

theorem report (h : Paired capacity expected output output') (columns : ℕ)
    (emitted : EmitSummary) :
    Run.Alongside (Paired capacity expected)
      (Run.done output (output.reduction.report columns emitted))
      (Run.done output' (output'.reduction.report columns emitted)) := by
  have hreport : output'.reduction.report columns emitted =
      output.reduction.report columns emitted := by
    obtain ⟨table', htable, hreduction⟩ := h.reduction
    rw [hreduction]
    rfl
  rw [hreport]
  exact .done h

theorem write (h : Paired capacity expected output output')
    (hfiltered : output.reduction.filtered = true) (source : Source) :
    Run.Alongside (Paired capacity expected) (Reduction.write output source)
      (Reduction.write output' source) := by
  have hfiltered' : output'.reduction.filtered = true := by
    obtain ⟨table', htable, hreduction⟩ := h.reduction
    rw [hreduction]
    exact hfiltered
  rw [Reduction.write, ensureFiltered_of_filtered hfiltered, Run.next_done, Reduction.write,
    ensureFiltered_of_filtered hfiltered', Run.next_done]
  apply h.renumber.next
  intro numbered numbered' columns _ _ hnumbered
  apply (hnumbered.emitHeader columns).next
  intro headed headed' _ _ _ hheaded
  apply (hheaded.emitRows source).next
  intro written written' emitted _ _ hwritten
  exact hwritten.report columns emitted

end Paired

section

variable {source : Source} {lines : List String}

theorem filtered_of_ends_filter {reduction after : Reduction}
    (hends : (reduction.filter source).Ends after ()) : after.filtered = true := by
  obtain ⟨first, -, hrest⟩ := ends_filter.mp hends
  split at hrest
  · rw [hrest]
  · obtain ⟨second, -, rfl⟩ := hrest
    rfl

theorem stopsForLength_of_fails_pass {reduction after : Reduction} {bounds : Bounds}
    {needed capacity : ℕ}
    (hfails : (reduction.pass source bounds).Fails after (.listTooLong needed capacity))
    (hsource : source.Yields lines) (hready : reduction.table.Ready)
    (hlaid : reduction.table.arena.capacity ≤ Arena.maxCapacity)
    (hfew : (Incidence.allIdeals lines).card ≤ Arena.sentinel) :
    capacity = reduction.table.arena.capacity ∧
      ∃ row, Incidence.StopsForLength lines bounds needed capacity after.table row := by
  rcases fails_pass hfails with ⟨loaded, hload, rfl⟩ | ⟨loaded, summary, -, hstops⟩
  · exact hready.stopsForLength_of_fails_load (hsource _) hlaid hfew hload
  · cases hstops

theorem stopsForLength_of_fails_filter (build : Build) (settings : Settings) (cost : Cost)
    (hsource : source.Yields lines) (hcapacity : settings.blockCapacity ≤ 2 ^ 32)
    (hideals : (Incidence.allIdeals lines).card < 2 ^ 31) {after : Reduction}
    {needed capacity : ℕ}
    (hfails : ((new build settings cost).filter source).Fails after (.listTooLong needed capacity)) :
    capacity = max settings.blockCapacity 1 ∧
      ∃ bounds row, (bounds = settings.initialBounds ∨ bounds = .none) ∧
        Incidence.StopsForLength lines bounds needed capacity after.table row := by
  have hfew : (Incidence.allIdeals lines).card ≤ Arena.sentinel := hideals.le.trans (by decide)
  have hready : (new build settings cost).table.Ready := Incidence.ready_new _ _
  have hlaid := laid_new build cost hcapacity
  rcases fails_filter.mp hfails with hfirst | ⟨first, hfirst, hrestricted, hsecond⟩
  · obtain ⟨hlimit, row, hstops⟩ :=
      stopsForLength_of_fails_pass hfirst hsource hready hlaid hfew
    exact ⟨hlimit, _, row, .inl rfl, hstops⟩
  · obtain ⟨-, hnarrowed⟩ := narrowed_of_ends hsource hready hlaid hfew hrestricted hfirst
    obtain ⟨hlimit, row, hstops⟩ := stopsForLength_of_fails_pass hsecond hsource hnarrowed.ready
      (hnarrowed.capacity_eq.trans_le hlaid) hfew
    exact ⟨hlimit.trans hnarrowed.capacity_eq, _, row, .inr rfl, hstops⟩

/-- A run that overflows does so in its passes. -/
theorem fails_filter_of_overflows {start : Reduction} {matrix : Sink} {map : Option Sink}
    {needed capacity : ℕ}
    (hover : (run ⟨start, matrix, map⟩ source).outcome = .error (.listTooLong needed capacity)) :
    ∃ after, (start.filter source).Fails after (.listTooLong needed capacity) ∧
      (run ⟨start, matrix, map⟩ source).state.reduction = after := by
  obtain ⟨output, hfails⟩ := Run.exists_fails hover
  rcases Run.fails_next.mp hfails with hfilter | ⟨middle, _, hfilter, hwrite⟩
  · obtain ⟨after, hafter, rfl⟩ := Run.fails_within.mp hfilter
    exact ⟨after, hafter, congrArg Output.reduction hfails.1⟩
  · obtain ⟨after, hafter, rfl⟩ := Run.ends_within.mp hfilter
    exact absurd ⟨.listTooLong needed capacity, trivial, hwrite.2⟩
      (not_starves_write _ source (filtered_of_ends_filter hafter))

theorem not_overflows_run {start : Reduction} (hok : (start.filter source).outcome = .ok ())
    (matrix : Sink) (map : Option Sink) : ¬ (run ⟨start, matrix, map⟩ source).Overflows := by
  rintro ⟨needed, capacity, hover⟩
  obtain ⟨after, hfails, -⟩ := fails_filter_of_overflows hover
  rw [hfails.2] at hok
  cases hok

/-- The layout of a table does not show.  Where the machine has storage for both, reductions with different
capacities of blocks and different numbers of expected ideals have runs with the same outcome that write the
same, unless one of these overflows.  A run overflows only at a row whose list does not fit into a block with
the sentinel that ends it. -/
theorem run_eq_of_layout (machine : Machine) (settings : Settings) (cost : Cost)
    (hsource : source.Yields lines)
    (hcapacity : settings.blockCapacity ≤ 2 ^ 32) (capacity : ℕ) (hcapacity' : capacity ≤ 2 ^ 32)
    (expected : Option ℕ) (hideals : (Incidence.allIdeals lines).card < 2 ^ 31) (matrix : Sink)
    (map : Option Sink) {fresh fresh' : Reduction}
    (hstart : (start machine settings cost).Ends () fresh)
    (hstart' : (start machine
      { settings with blockCapacity := capacity, expectedIdeals := expected } cost).Ends () fresh') :
    let first := run ⟨fresh, matrix, map⟩ source
    let second := run ⟨fresh', matrix, map⟩ source
    (¬ first.Overflows → ¬ second.Overflows →
        first.outcome = second.outcome ∧ first.state.matrix = second.state.matrix ∧
          first.state.map = second.state.map) ∧
      ∀ needed limit, first.outcome = .error (.listTooLong needed limit) →
        limit = max settings.blockCapacity 1 ∧
          ∃ bounds row, (bounds = settings.initialBounds ∨ bounds = .none) ∧
            Incidence.StopsForLength lines bounds needed limit first.state.reduction.table row := by
  obtain ⟨-, rfl⟩ := ends_start.mp hstart
  obtain ⟨-, rfl⟩ := ends_start.mp hstart'
  intro first second
  constructor
  · have hfilter := (alongside_filter machine.build settings cost hsource hcapacity hcapacity' expected
      hideals).within (fun after after' hafter =>
        (⟨hafter, rfl, rfl⟩ : Paired capacity expected ⟨after, matrix, map⟩ ⟨after', matrix, map⟩))
    have hrun : Run.Alongside (Paired capacity expected) first second := by
      apply hfilter.next
      intro output output' _ hends _ houtput
      obtain ⟨after, hafter, rfl⟩ := Run.ends_within.mp hends
      exact houtput.write (filtered_of_ends_filter hafter) source
    intro hfits hfits'
    obtain ⟨houtcome, hstate⟩ := hrun hfits hfits'
    exact ⟨houtcome, hstate.matrix_eq, hstate.map_eq⟩
  · intro needed limit hover
    obtain ⟨after, hfails, hafter⟩ := fails_filter_of_overflows hover
    rw [hafter]
    exact stopsForLength_of_fails_filter machine.build settings cost hsource hcapacity hideals hfails

theorem run_eq_of_layout_sample :
    let settings := { sampleSettings with expectedIdeals := some 64 }
    let settings' := { settings with blockCapacity := 7, expectedIdeals := some 10 }
    let first := run ⟨new .checked settings .rowFraction, .empty none, some (.empty none)⟩
      (.ofLines Source.sampleLines)
    let second := run ⟨new .checked settings' .rowFraction, .empty none, some (.empty none)⟩
      (.ofLines Source.sampleLines)
    first.outcome = second.outcome ∧ first.state.matrix = second.state.matrix ∧
      first.state.map = second.state.map := by
  intro settings settings'
  have hok : ((new .checked settings .rowFraction).filter (.ofLines Source.sampleLines)).outcome =
      .ok () := by decide +kernel
  have hok' : ((new .checked settings' .rowFraction).filter (.ofLines Source.sampleLines)).outcome =
      .ok () := by decide +kernel
  have hfits := not_overflows_run hok (.empty none) (some (.empty none))
  have hfits' := not_overflows_run hok' (.empty none) (some (.empty none))
  have hstart : (start (.addressed .checked) settings .rowFraction).Ends ()
      (new .checked settings .rowFraction) := ends_start.mpr ⟨by decide, rfl⟩
  have hstart' : (start (.addressed .checked) settings' .rowFraction).Ends ()
      (new .checked settings' .rowFraction) := ends_start.mpr ⟨by decide, rfl⟩
  have hsame := run_eq_of_layout (.addressed .checked) settings .rowFraction
    (Source.yields_ofLines Source.sampleLines) (by decide) 7 (by decide) (some 10)
    (by decide +kernel) (.empty none) (some (.empty none)) hstart hstart'
  exact hsame.1 hfits hfits'

/-- Three relations that share one ideal. -/
def tripleLines : List String :=
  ["1,1:3:", "2,1:3:", "3,1:3:"]

def tripleSettings : Settings :=
  { Settings.default with
    rows := 3
    expectedIdeals := some 64 }

/-- Of two reductions that differ in the number of expected ideals only, one gives a report, and for the other
one there is no storage. -/
theorem start_depends_on_expected :
    (∃ fresh, (start (.addressed .checked) tripleSettings .rowFraction).Ends () fresh ∧
      (run ⟨fresh, .empty none, none⟩ (.ofLines tripleLines)).outcome = .ok ⟨3, 1, 2, 3, 1, false⟩) ∧
    (start (.addressed .checked) { tripleSettings with expectedIdeals := some (2 ^ 64 - 1) }
      .rowFraction).Fails () .breakdown := by
  constructor
  · exact ⟨_, ends_start.mpr ⟨by decide, rfl⟩, by decide +kernel⟩
  · exact fails_start.mpr ⟨by decide, rfl⟩

end

end Reduction

end SieveFilter
