import SieveFilter.Proofs.Reduction.Copying

/-!
# What a run reads and writes

A run that succeeds has met no fault in its first reading, and it writes a column map exactly when one is
wanted.
-/

namespace SieveFilter

/-- A renumbering has a column map if and only if it was given one. -/
theorem Roster.isSome_map_renumber (roster : Roster) (map : Option Sink) :
    (roster.renumber map).state.2.isSome = map.isSome := by
  let Invariant (_ : Roster) (other : Option Sink) : Prop := other.isSome = map.isSome
  have hkept : Invariant (roster.renumber map).state.1 (roster.renumber map).state.2 :=
    renumber_keeps (fun _ _ _ _ h => h) (fun _ _ _ h => h) (fun _ => rfl) fun _ => rfl
  exact hkept

namespace Reduction

variable {source : Source} {output after : Output} {report : Report}

/-- A run that succeeds has met no fault in its first reading. -/
theorem not_fault_of_ends_run (h : (run output source).Ends after report) :
    ∀ event ∈ source output.reduction.readings, ∀ cause, event ≠ .fault cause := by
  obtain ⟨_, hfilter⟩ := exists_filter_of_run h.2
  obtain ⟨_, hfirst, -⟩ := ends_filter.mp hfilter
  obtain ⟨_, _, hload, -⟩ := ends_pass.mp hfirst
  exact Incidence.not_fault_of_ends_load hload

theorem isSome_map_write (output : Output) (source : Source) :
    (write output source).state.map.isSome = output.map.isSome := by
  let Invariant (other : Output) : Prop := other.map.isSome = output.map.isSome
  have hensured : Invariant (ensureFiltered output source).state := rfl
  refine Run.next_keeps Invariant hensured fun middle _ hmiddle => ?_
  have hnumbered : Invariant (renumber middle).state := by
    obtain ⟨⟨build, settings, cost, ⟨used, lists, arena, roster, liveRows, liveIdeals⟩, passes, filtered,
      readings⟩, matrix, map⟩ := middle
    exact (Roster.isSome_map_renumber roster map).trans hmiddle
  refine Run.next_keeps Invariant hnumbered fun middle _ hmiddle => ?_
  have hheader (columns : ℕ) : Invariant (emitHeader middle columns).state := hmiddle
  refine Run.next_keeps Invariant (hheader _) fun middle _ hmiddle => ?_
  have hrows : Invariant (emitRows middle source).state := hmiddle
  exact Run.next_keeps Invariant hrows fun _ _ hstate => hstate

/-- A run has a column map if and only if it was given one. -/
theorem isSome_map_of_ends_run (h : (run output source).Ends after report) :
    after.map.isSome = output.map.isSome := by
  obtain ⟨_, _, hfilter, hwrite⟩ := Run.ends_next.mp h
  obtain ⟨_, -, rfl⟩ := Run.ends_within.mp hfilter
  rw [← hwrite.1]
  exact isSome_map_write _ source

end Reduction

end SieveFilter
