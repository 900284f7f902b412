import SieveFilter.Proofs.Incidence.Losses
import SieveFilter.Proofs.Incidence.Operations

/-!
# Confluence of singleton deletions

A sweep changes the counts that it tests, so which row is found to have a singleton depends on the order of the
rows.  Where the deletions end does not: whoever deletes rows with a singleton, one at a time and in any order,
until there are none, arrives at the greatest set of rows in which no slot is listed exactly once.
-/

namespace SieveFilter.Incidence

variable {table : Incidence}

/-- The deletion of a row with a singleton does not lower the excess. -/
theorem Consistent.excess_le_delete (h : table.Consistent) {row : ℕ} (hrow : row ∈ table.usedSet)
    (hsingleton : table.hasSingleton row = true) : table.excess ≤ (table.delete row).excess := by
  obtain ⟨slot, hslot, hone⟩ := h.hasSingleton_iff.mp hsingleton
  rw [h.excess_delete hrow, h.excess_eq]
  exact Rows.excess_le_excess_erase hrow hslot hone

/-- Deletions of rows with a singleton that cannot go on have arrived at the core. -/
theorem Consistent.usedSet_of_peels (h : table.Consistent) {after : Incidence}
    (hpeels : Peels table after) (hnone : after.NoSingletons) :
    after.usedSet = Rows.core table.list table.usedSet := by
  have hremainder := hpeels.deletes.remainder h
  apply (hpeels.rows h).eq_core
  rw [← Rows.stable_congr hremainder.list_eq, hremainder.consistent.stable_iff]
  exact hnone

/-- A sweep of a table without singletons deletes nothing. -/
theorem deleted_sweep_of_noSingletons (hnone : table.NoSingletons) : table.sweep.deleted = 0 := by
  have hfold : ∀ rows : List ℕ, rows.foldl Sweep.step ⟨table, 0⟩ = ⟨table, 0⟩ := by
    intro rows
    induction rows with
    | nil => rfl
    | cons row rest ih =>
      have hstays : (table.isUsed row && table.hasSingleton row) = false := by
        cases hused : table.isUsed row with
        | false => rfl
        | true => exact hnone row (mem_usedSet.mpr hused)
      rw [List.foldl_cons, Sweep.step, hstays]
      exact ih
  rw [sweep, hfold]

/-- The removal of singletons leaves of a consistent table the greatest set of used rows in which no slot is
listed exactly once, with their lists, and so do deletions of rows with a singleton in any other order, once
there are none left.  It tells the number of rows that it has deleted, a sweep after it deletes nothing, and
each row that goes out of use does so by a deletion that finds a singleton in it and does not lower the
excess. -/
theorem removeSingletons_leaves_greatest (h : table.Consistent) :
    let removal := table.removeSingletons
    IsGreatest {T | T ⊆ table.usedSet ∧ ∀ slot, Rows.references table.list T slot ≠ 1}
        removal.table.usedSet ∧
      (∀ after, Peels table after → after.NoSingletons →
        after.usedSet = removal.table.usedSet) ∧
      removal.deleted = (table.usedSet \ removal.table.usedSet).card ∧
      removal.table.sweep.deleted = 0 ∧
      removal.table.sweep.table = removal.table ∧
      (∀ row ∈ removal.table.usedSet, removal.table.list row = table.list row) ∧
      (∀ row ∈ table.usedSet \ removal.table.usedSet, ∃ mid, DropsSingleton table mid row) ∧
      ∀ mid row, DropsSingleton table mid row →
        row ∈ mid.usedSet ∧ mid.hasSingleton row = true ∧
          mid.excess ≤ (mid.delete row).excess := by
  have hcore := h.usedSet_removeSingletons
  have hremainder := h.remainder_removeSingletons
  have hnone := noSingletons_removeSingletons table
  have hquiet := deleted_sweep_of_noSingletons hnone
  refine ⟨?_, ?_, ?_, hquiet, (sweep_of_deleted_eq_zero hquiet).1, hremainder.list_eq, ?_, ?_⟩
  · rw [hcore]
    exact Rows.isGreatest_core_forall
  · intro after hpeels hafter
    rw [hcore, h.usedSet_of_peels hpeels hafter]
  · have hcount := usedCount_removeSingletons table
    have hsubset := hremainder.usedSet_subset
    rw [usedCount_eq_card, usedCount_eq_card] at hcount
    rw [Finset.card_sdiff_of_subset hsubset]
    omega
  · intro row hrow
    obtain ⟨hused, hlost⟩ := Finset.mem_sdiff.mp hrow
    exact exists_dropsSingleton hused hlost
  · intro mid row hdrops
    obtain ⟨hpeels, hrow, hsingleton⟩ := hdrops.peels
    have hmid := (hpeels.deletes.remainder h).consistent
    exact ⟨hrow, hsingleton, hmid.excess_le_delete hrow hsingleton⟩

/-- A chain of rows that falls from its end, a row that lists one slot twice, and a row without slots. -/
def sampleChain : Incidence :=
  (new 6 64).execute
    [.register 0 [⟨3, 0⟩, ⟨5, 0⟩], .register 1 [⟨5, 0⟩, ⟨7, 0⟩], .register 2 [⟨7, 0⟩, ⟨11, 0⟩],
      .register 3 [⟨3, 0⟩], .register 4 [⟨13, 0⟩, ⟨13, 0⟩], .register 5 []]

/-- The removal of singletons takes the chain, as deletions from its end do. -/
theorem removeSingletons_leaves_greatest_sample :
    sampleChain.Consistent ∧ sampleChain.removeSingletons.table.usedSet = {4, 5} := by
  have hconsistent : sampleChain.Consistent := by decide +kernel
  have hpeels : Peels sampleChain ((((sampleChain.delete 2).delete 1).delete 0).delete 3) := by
    refine .tail (.tail (.tail (.single ⟨2, ?_, ?_, rfl⟩) ⟨1, ?_, ?_, rfl⟩) ⟨0, ?_, ?_, rfl⟩)
      ⟨3, ?_, ?_, rfl⟩
    all_goals decide +kernel
  have hnone : ((((sampleChain.delete 2).delete 1).delete 0).delete 3).NoSingletons := by
    unfold NoSingletons
    decide +kernel
  refine ⟨hconsistent, ?_⟩
  rw [← (removeSingletons_leaves_greatest hconsistent).2.1 _ hpeels hnone]
  decide +kernel

end SieveFilter.Incidence
