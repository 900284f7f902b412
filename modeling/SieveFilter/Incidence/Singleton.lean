import SieveFilter.Incidence

/-!
# Removal of singletons

A row with an ideal that no other used row has is of no use to the matrix.  Its deletion can leave other
ideals with a single row, so sweeps over the rows are repeated until one of them deletes nothing.
-/

namespace SieveFilter.Incidence

/-- A table after deletions, their number, and the notices made on the way. -/
structure Deletion where
  table : Incidence
  deleted : Nat
  notices : List Notice

/-- A table and the number of rows that a sweep has deleted so far. -/
structure Sweep where
  table : Incidence
  deleted : Nat

/-- Deletes a row if it is used and has a singleton. -/
def Sweep.step (sweep : Sweep) (row : Nat) : Sweep :=
  let ⟨table, deleted⟩ := sweep
  if table.isUsed row && table.hasSingleton row then ⟨table.delete row, deleted + 1⟩
  else ⟨table, deleted⟩

/-- One sweep over the rows in increasing order, deleting each used row with a singleton. -/
def sweep (table : Incidence) : Sweep :=
  let rows := List.range table.size
  rows.foldl Sweep.step ⟨table, 0⟩

/-- A step of a sweep deletes the rows that go missing from the count of used rows. -/
theorem Sweep.usedCount_step (sweep : Sweep) (row : Nat) :
    (sweep.step row).table.usedCount + (sweep.step row).deleted =
      sweep.table.usedCount + sweep.deleted := by
  obtain ⟨table, deleted⟩ := sweep
  simp only [step]
  split
  next h =>
    have count := usedCount_delete (Bool.and_eq_true_iff.mp h).1
    simp only
    omega
  next => rfl

theorem Sweep.usedCount_foldl (sweep : Sweep) (rows : List Nat) :
    (rows.foldl step sweep).table.usedCount + (rows.foldl step sweep).deleted =
      sweep.table.usedCount + sweep.deleted := by
  induction rows generalizing sweep with
  | nil => rfl
  | cons row rest ih => rw [List.foldl_cons, ih, usedCount_step]

/-- A sweep deletes the rows that go missing from the count of used rows. -/
theorem usedCount_sweep (table : Incidence) :
    table.sweep.table.usedCount + table.sweep.deleted = table.usedCount := by
  simpa [sweep] using Sweep.usedCount_foldl ⟨table, 0⟩ (List.range table.size)

theorem liveRows_sweep_le (table : Incidence) :
    table.sweep.table.liveRows ≤ table.liveRows := by
  have fold : ∀ (rows : List Nat) (sweep : Sweep),
      (rows.foldl Sweep.step sweep).table.liveRows ≤ sweep.table.liveRows := by
    intro rows
    induction rows with
    | nil => exact fun _ => Nat.le_refl _
    | cons row rest ih =>
      intro sweep
      refine Nat.le_trans (ih _) ?_
      obtain ⟨table, deleted⟩ := sweep
      simp only [Sweep.step]
      split
      · simp
      · exact Nat.le_refl _
  exact fold _ _

/-- Sweeps until a sweep deletes nothing. -/
def removeSingletons (table : Incidence) : Deletion :=
  match result : table.sweep with
  | ⟨swept, 0⟩ => ⟨swept, 0, []⟩
  | ⟨swept, deleted + 1⟩ =>
    let notice := .swept (deleted + 1) swept.liveRows swept.liveIdeals swept.excess
    let rest := removeSingletons swept
    ⟨rest.table, deleted + 1 + rest.deleted, notice :: rest.notices⟩
termination_by table.usedCount
decreasing_by
  have count := usedCount_sweep table
  simp only [result] at count
  omega

theorem liveRows_removeSingletons_le (table : Incidence) :
    table.removeSingletons.table.liveRows ≤ table.liveRows := by
  fun_induction removeSingletons table with
  | case1 table swept result =>
    simpa [result] using liveRows_sweep_le table
  | case2 table swept deleted result notice rest ih =>
    have le := liveRows_sweep_le table
    simp only [result] at le
    exact Nat.le_trans ih le

end SieveFilter.Incidence
