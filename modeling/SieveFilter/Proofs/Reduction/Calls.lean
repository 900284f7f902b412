import SieveFilter.Proofs.Reduction.Keeping
import SieveFilter.Proofs.Reduction.Layout

/-!
# Sequences of calls

A reduction may be filtered and written any number of times, whatever the calls before have come to.  A
write gives columns first and writes the matrix then; columns are given once, so every later write fails and
changes nothing.
-/

namespace SieveFilter

/-! ## Rosters that are renumbered -/

namespace Roster

/-- However far a renumbering goes, the roster is renumbered after it. -/
theorem phase_renumber (roster : Roster) (map : Option Sink) :
    (roster.renumber map).state.1.phase = .renumbered := by
  let Invariant (roster : Roster) (_ : Option Sink) : Prop := roster.phase = .renumbered
  have hkept : Invariant (roster.renumber map).state.1 (roster.renumber map).state.2 :=
    renumber_keeps (fun _ _ _ _ h => h) (fun _ _ _ h => h) (fun _ => rfl) id
  exact hkept

end Roster

namespace Reduction

/-- The uses of a reduction.  Each write has sinks of its own. -/
inductive Call where
  | filter
  | write (matrix : Sink) (map : Option Sink)

/-- The reduction that a call leaves, whether it succeeds or fails. -/
def Call.apply (source : Source) (reduction : Reduction) : Call → Reduction
  | .filter => (reduction.filter source).state
  | .write matrix map => (Reduction.write ⟨reduction, matrix, map⟩ source).state.reduction

def afterCalls (source : Source) (reduction : Reduction) (calls : List Call) : Reduction :=
  calls.foldl (Call.apply source) reduction

/-! ## The parts of a write -/

/-- What a write does once columns are given. -/
def writeRows (output : Output) (source : Source) (columns : ℕ) : Run Output Report :=
  (emitHeader output columns).next fun output _ =>
    (emitRows output source).next fun output emitted =>
      .done output (output.reduction.report columns emitted)

theorem write_of_filtered {output : Output} (hfiltered : output.reduction.filtered = true)
    (source : Source) :
    write output source = (renumber output).next fun output columns =>
      writeRows output source columns := by
  rw [write, ensureFiltered_of_filtered hfiltered, Run.next_done]
  rfl

/-- A reduction whose roster has been renumbered, as far as the renumbering went. -/
def withRoster (reduction : Reduction) (roster : Roster) : Reduction :=
  { reduction with table := { reduction.table with roster } }

theorem renumber_eq (output : Output) :
    let numbered := output.reduction.table.roster.renumber output.map
    (renumber output).outcome = numbered.outcome ∧
      (renumber output).state =
        ⟨output.reduction.withRoster numbered.state.1, output.matrix, numbered.state.2⟩ :=
  ⟨rfl, rfl⟩

/-- Writing the rows is the emission of the table to the sink of the matrix, and changes nothing else but the
number of readings. -/
theorem writeRows_eq (output : Output) (source : Source) (columns : ℕ) :
    let emitted := output.reduction.table.emit (source output.reduction.readings) output.matrix
      columns output.reduction.settings.raw
    let written := writeRows output source columns
    written.outcome = emitted.outcome.map (output.reduction.report columns) ∧
      written.state.matrix = emitted.state ∧ written.state.map = output.map ∧
      ∃ readings, written.state.reduction = { output.reduction with readings } := by
  obtain ⟨reduction, matrix, map⟩ := output
  simp only [writeRows, emitHeader, Incidence.emit]
  generalize reduction.table.emitHeader matrix columns reduction.settings.raw = header
  obtain ⟨header, notices, outcome⟩ := header
  cases outcome with
  | error cause => exact ⟨rfl, rfl, rfl, reduction.readings, rfl⟩
  | ok _ =>
    simp only [Run.within, Run.after, Run.next, Run.afterAll, emitRows]
    generalize reduction.table.emitRows (source reduction.readings) header reduction.settings.raw =
      rows
    obtain ⟨rows, notices, outcome⟩ := rows
    cases outcome with
    | error cause => exact ⟨rfl, rfl, rfl, reduction.readings + 1, rfl⟩
    | ok summary => exact ⟨rfl, rfl, rfl, reduction.readings + 1, rfl⟩

section

variable {reduction : Reduction} {map written : Option Sink} {roster : Roster}

/-- A write goes no further than its renumbering. -/
theorem write_of_fails_renumber (hfiltered : reduction.filtered = true) {cause : Failure}
    (hfails : (reduction.table.roster.renumber map).Fails (roster, written) cause)
    (matrix : Sink) (source : Source) :
    (write ⟨reduction, matrix, map⟩ source).Fails ⟨reduction.withRoster roster, matrix, written⟩
      cause := by
  obtain ⟨hstate, houtcome⟩ := hfails
  obtain ⟨houtcome', hstate'⟩ := renumber_eq ⟨reduction, matrix, map⟩
  rw [hstate] at hstate'
  rw [houtcome] at houtcome'
  rw [write_of_filtered hfiltered]
  exact Run.fails_next.mpr (.inl ⟨hstate', houtcome'⟩)

/-- After its renumbering a write emits the table. -/
theorem write_of_ends_renumber (hfiltered : reduction.filtered = true) {columns : ℕ}
    (hends : (reduction.table.roster.renumber map).Ends (roster, written) columns)
    (matrix : Sink) (source : Source) :
    let emitted := (reduction.withRoster roster).table.emit (source reduction.readings) matrix
      columns reduction.settings.raw
    let run := write ⟨reduction, matrix, map⟩ source
    run.outcome = emitted.outcome.map (reduction.report columns) ∧
      run.state.matrix = emitted.state ∧ run.state.map = written := by
  obtain ⟨hreport, hmatrix, hmap, -⟩ := writeRows_eq
    ⟨reduction.withRoster roster, matrix, written⟩ source columns
  obtain ⟨houtcome, hstate⟩ := renumber_eq ⟨reduction, matrix, map⟩
  rw [hends.1] at hstate
  rw [hends.2] at houtcome
  have hnumbered : (renumber ⟨reduction, matrix, map⟩).Ends
      ⟨reduction.withRoster roster, matrix, written⟩ columns := ⟨hstate, houtcome⟩
  obtain ⟨hrestState, hrestOutcome⟩ := hnumbered.next_eq fun output columns =>
    writeRows output source columns
  rw [write_of_filtered hfiltered]
  exact ⟨hrestOutcome.trans hreport, (congrArg Output.matrix hrestState).trans hmatrix,
    (congrArg Output.map hrestState).trans hmap⟩

end

/-! ## Writing twice -/

/-- A write that does not run the passes leaves the roster renumbered, and changes the roster and the number of
readings only. -/
theorem write_of_filtered_state {output : Output} (hfiltered : output.reduction.filtered = true)
    (source : Source) :
    ∃ roster readings, roster.phase = .renumbered ∧
      (write output source).state.reduction =
        { output.reduction.withRoster roster with readings } := by
  obtain ⟨-, hstate⟩ := renumber_eq output
  have hphase := output.reduction.table.roster.phase_renumber output.map
  rw [write_of_filtered hfiltered]
  generalize renumber output = numbered at hstate
  obtain ⟨numbered, notices, outcome⟩ := numbered
  simp only at hstate
  subst hstate
  cases outcome with
  | error cause => exact ⟨_, output.reduction.readings, hphase, rfl⟩
  | ok columns =>
    obtain ⟨-, -, -, readings, hreadings⟩ := writeRows_eq
      ⟨output.reduction.withRoster (output.reduction.table.roster.renumber output.map).state.1,
        output.matrix, (output.reduction.table.roster.renumber output.map).state.2⟩ source columns
    exact ⟨_, readings, hphase, hreadings⟩

/-- Once the roster is renumbered, a write fails, writes nothing and leaves everything as it is. -/
theorem write_of_renumbered (output : Output) (hfiltered : output.reduction.filtered = true)
    (hphase : output.reduction.table.roster.phase = .renumbered) (source : Source) :
    (write output source).Fails output (.misuse .renumberedTwice) := by
  obtain ⟨reduction, matrix, map⟩ := output
  have hrenumber : reduction.table.roster.renumber map =
      .fail (reduction.table.roster, map) (.misuse .renumberedTwice) := by
    simp only at hphase
    simp only [Roster.renumber, Roster.beginRenumbering, hphase]
  obtain ⟨houtcome, hstate⟩ := renumber_eq ⟨reduction, matrix, map⟩
  rw [hrenumber] at houtcome hstate
  rw [write_of_filtered hfiltered]
  exact Run.fails_next.mpr (.inl ⟨hstate, houtcome⟩)

/-- Once the roster is renumbered, writes leave the reduction as it is. -/
theorem afterCalls_of_renumbered {reduction : Reduction} (hfiltered : reduction.filtered = true)
    (hphase : reduction.table.roster.phase = .renumbered) (source : Source) {calls : List Call}
    (hcalls : .filter ∉ calls) : afterCalls source reduction calls = reduction := by
  induction calls with
  | nil => rfl
  | cons call rest ih =>
    obtain ⟨hcall, hrest⟩ := not_or.mp (mt List.mem_cons.mpr hcalls)
    cases call with
    | filter => exact absurd rfl hcall
    | write matrix map =>
      have hsame : Call.apply source reduction (.write matrix map) = reduction :=
        congrArg Output.reduction (write_of_renumbered ⟨reduction, matrix, map⟩ hfiltered hphase source).1
      rw [afterCalls, List.foldl_cons, hsame]
      exact ih hrest

end Reduction

end SieveFilter
