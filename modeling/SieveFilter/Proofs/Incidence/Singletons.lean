import SieveFilter.Proofs.Incidence.Deletion

/-!
# Removal of singletons

The removal of singletons peels rows off until no used row has a singleton.  So whatever the order of its
sweeps, the used rows that it leaves are the core of those it began with.
-/

namespace SieveFilter.Incidence

/-- No used row has an entry that is listed exactly once. -/
def NoSingletons (table : Incidence) : Prop :=
  ∀ row ∈ table.usedSet, table.hasSingleton row = false

theorem Consistent.stable_iff {table : Incidence} (h : table.Consistent) :
    Rows.Stable table.list table.usedSet ↔ table.NoSingletons := by
  apply forall₂_congr
  intro row _
  rw [← Bool.not_eq_true, h.hasSingleton_iff]
  simp

namespace Sweep

theorem peels_step (sweep : Sweep) (row : ℕ) : Peels sweep.table (sweep.step row).table := by
  obtain ⟨table, deleted⟩ := sweep
  simp only [step]
  split
  next h =>
    obtain ⟨hused, hsingleton⟩ := Bool.and_eq_true_iff.mp h
    exact .single ⟨row, mem_usedSet.mpr hused, hsingleton, rfl⟩
  next => exact .refl

theorem peels_foldl (sweep : Sweep) (rows : List ℕ) :
    Peels sweep.table (rows.foldl step sweep).table := by
  induction rows generalizing sweep with
  | nil => exact .refl
  | cons row rest ih => exact (peels_step sweep row).trans (ih (sweep.step row))

theorem deleted_le_step (sweep : Sweep) (row : ℕ) : sweep.deleted ≤ (sweep.step row).deleted := by
  obtain ⟨table, deleted⟩ := sweep
  simp only [step]
  split
  · exact Nat.le_succ deleted
  · exact Nat.le_refl deleted

theorem deleted_le_foldl (sweep : Sweep) (rows : List ℕ) :
    sweep.deleted ≤ (rows.foldl step sweep).deleted := by
  induction rows generalizing sweep with
  | nil => exact Nat.le_refl _
  | cons row rest ih => exact (deleted_le_step sweep row).trans (ih (sweep.step row))

/-- A sweep that has deleted nothing has found no singleton on its way. -/
theorem eq_of_deleted_eq (sweep : Sweep) (rows : List ℕ)
    (hsame : (rows.foldl step sweep).deleted = sweep.deleted) :
    rows.foldl step sweep = sweep ∧
      ∀ row ∈ rows, row ∈ sweep.table.usedSet → sweep.table.hasSingleton row = false := by
  induction rows generalizing sweep with
  | nil => exact ⟨rfl, by simp⟩
  | cons row rest ih =>
    have hrest := deleted_le_foldl (sweep.step row) rest
    rw [List.foldl_cons] at hsame ⊢
    obtain ⟨table, deleted⟩ := sweep
    by_cases hdelete : (table.isUsed row && table.hasSingleton row) = true
    · simp only [step, hdelete, if_true] at hsame hrest
      omega
    · simp only [step, hdelete] at hsame ⊢
      obtain ⟨hstate, hnone⟩ := ih ⟨table, deleted⟩ hsame
      refine ⟨hstate, ?_⟩
      intro other hother hused
      rcases List.mem_cons.mp hother with rfl | hother
      · simpa [mem_usedSet.mp hused] using hdelete
      · exact hnone other hother hused

end Sweep

theorem peels_sweep (table : Incidence) : Peels table table.sweep.table :=
  Sweep.peels_foldl ⟨table, 0⟩ _

/-- A sweep that deletes nothing leaves the table as it is, and the table has no singletons. -/
theorem sweep_of_deleted_eq_zero {table : Incidence} (hzero : table.sweep.deleted = 0) :
    table.sweep.table = table ∧ table.NoSingletons := by
  obtain ⟨hstate, hnone⟩ := Sweep.eq_of_deleted_eq ⟨table, 0⟩ (List.range table.size) hzero
  constructor
  · exact congrArg Sweep.table hstate
  · intro row hrow
    have hin : row ∈ List.range table.size :=
      List.mem_range.mpr (lt_size_of_mem_usedSet hrow)
    exact hnone row hin hrow

/-- The removal stops after a sweep that deletes nothing, and goes on after any other. -/
theorem removeSingletons_table (table : Incidence) :
    table.removeSingletons.table =
      if table.sweep.deleted = 0 then table.sweep.table
      else table.sweep.table.removeSingletons.table := by
  fun_cases removeSingletons table with
  | case1 swept hresult => rw [hresult, if_pos rfl]
  | case2 swept deleted hresult notice rest => rw [hresult, if_neg (Nat.succ_ne_zero deleted)]

/-- The removal of singletons peels rows off. -/
theorem peels_removeSingletons (table : Incidence) :
    Peels table table.removeSingletons.table := by
  fun_induction removeSingletons table with
  | case1 table swept hresult =>
    have hpeels := peels_sweep table
    rwa [hresult] at hpeels
  | case2 table swept deleted hresult notice rest ih =>
    have hpeels := peels_sweep table
    rw [hresult] at hpeels
    exact hpeels.trans ih

/-- The removal of singletons leaves no singletons. -/
theorem noSingletons_removeSingletons (table : Incidence) :
    table.removeSingletons.table.NoSingletons := by
  fun_induction removeSingletons table with
  | case1 table swept hresult =>
    have hzero : table.sweep.deleted = 0 := by rw [hresult]
    obtain ⟨hstate, hnone⟩ := sweep_of_deleted_eq_zero hzero
    rw [hresult] at hstate
    simp only at hstate
    rwa [hstate]
  | case2 table swept deleted hresult notice rest ih => exact ih

namespace Consistent

variable {table : Incidence}

/-- What the removal of singletons leaves of a consistent table. -/
theorem remainder_removeSingletons (h : table.Consistent) :
    Remainder table table.removeSingletons.table :=
  (Peels.deletes (peels_removeSingletons table)).remainder h

theorem stable_removeSingletons (h : table.Consistent) :
    Rows.Stable table.list table.removeSingletons.table.usedSet := by
  have hremainder := h.remainder_removeSingletons
  rw [← Rows.stable_congr hremainder.list_eq, hremainder.consistent.stable_iff]
  exact noSingletons_removeSingletons table

/-- The removal of singletons does not lower the excess. -/
theorem excess_le_removeSingletons (h : table.Consistent) :
    table.excess ≤ table.removeSingletons.table.excess := by
  have hremainder := h.remainder_removeSingletons
  rw [h.excess_eq, hremainder.consistent.excess_eq, Rows.excess_congr hremainder.list_eq]
  exact ((peels_removeSingletons table).rows h).excess_le

/-- The removal of singletons leaves the core of the used rows. -/
theorem usedSet_removeSingletons (h : table.Consistent) :
    table.removeSingletons.table.usedSet = Rows.core table.list table.usedSet :=
  ((peels_removeSingletons table).rows h).eq_core h.stable_removeSingletons

end Consistent

end SieveFilter.Incidence
