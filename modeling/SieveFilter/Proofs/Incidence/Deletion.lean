import SieveFilter.Incidence.Singleton
import SieveFilter.Proofs.Incidence.Consistency
import SieveFilter.Proofs.Support.Peeling
import Mathlib.Logic.Relation

/-!
# Deletions

Every operation that makes a table smaller is a sequence of deletions of single used rows.  What a
sequence of deletions keeps is derived here from what one deletion does: the counts stay consistent, the
remaining rows keep their lists, and the roster keeps its ideals.  When each deleted row has a singleton,
the sequence peels rows off in the sense of `Rows.Peels`.
-/

namespace SieveFilter.Incidence

/-! ## One deletion -/

/-- A deletion takes its row out of the set of used rows. -/
theorem usedSet_delete (table : Incidence) (row : ℕ) :
    (table.delete row).usedSet = table.usedSet.erase row := by
  rw [usedSet, delete_used, marked_setIfInBounds, usedSet]

/-- The deletion of a used row drops the references of its list and forgets the list. -/
theorem Consistent.dropped_delete {table : Incidence} (h : table.Consistent) {row : ℕ}
    (hrow : row ∈ table.usedSet) :
    Dropped
      { table with
        used := table.used.setIfInBounds row false
        lists := table.lists.setIfInBounds row none
        liveRows := table.liveRows - 1 }
      (table.list row) (table.delete row) := by
  have hcount := h.count_eq
  refine dropped_foldl (table.list row) h.liveIdeals_eq ?_
  intro slot
  have hle := Rows.count_le_references table.list slot hrow
  have hslot := hcount slot
  simp only [count] at hslot ⊢
  omega

/-- A deletion leaves the lists of the other rows as they are. -/
theorem Consistent.list_delete_of_ne {table : Incidence} (h : table.Consistent) {row other : ℕ}
    (hrow : row ∈ table.usedSet) (hne : other ≠ row) :
    (table.delete row).list other = table.list other := by
  have hdropped := h.dropped_delete hrow
  have hlists : (table.delete row).lists = table.lists.setIfInBounds row none :=
    hdropped.lists_eq
  have harena : (table.delete row).arena = table.arena := hdropped.arena_eq
  simp [list, hlists, harena, Array.getD_eq_getD_getElem?, Ne.symm hne]

/-- The deletion of a used row keeps a table consistent. -/
theorem Consistent.delete {table : Incidence} (h : table.Consistent) {row : ℕ}
    (hrow : row ∈ table.usedSet) : (table.delete row).Consistent := by
  have hdropped := h.dropped_delete hrow
  constructor
  · rw [hdropped.lists_eq]
    simp [h.lists_size, size]
  · rw [hdropped.values_size_eq, Roster.size, hdropped.ideals_eq]
    exact h.values_size
  · intro slot
    have hlists : Rows.references (table.delete row).list (table.usedSet.erase row) slot =
        Rows.references table.list (table.usedSet.erase row) slot := by
      apply Rows.references_congr
      intro other hother
      exact h.list_delete_of_ne hrow (Finset.ne_of_mem_erase hother)
    have herase := Rows.references_erase table.list slot hrow
    have hbefore := h.count_eq slot
    have hafter := hdropped.count_eq slot
    rw [usedSet_delete, hlists, hafter]
    simp only [count] at hbefore ⊢
    omega
  · exact hdropped.liveIdeals_eq
  · rw [usedSet_delete, Finset.card_erase_of_mem hrow, delete_liveRows, h.liveRows_eq]

/-! ## Sequences of deletions -/

/-- `after` is `before` with one used row less. -/
def DeletesOne (before after : Incidence) : Prop :=
  ∃ row ∈ before.usedSet, after = before.delete row

/-- `after` is `before` with one row less, which had a singleton. -/
def PeelsOne (before after : Incidence) : Prop :=
  ∃ row ∈ before.usedSet, before.hasSingleton row = true ∧ after = before.delete row

/-- `after` is left of `before` after deletions of used rows. -/
def Deletes : Incidence → Incidence → Prop :=
  Relation.ReflTransGen DeletesOne

/-- `after` is left of `before` after deletions of rows that had a singleton when they were deleted. -/
def Peels : Incidence → Incidence → Prop :=
  Relation.ReflTransGen PeelsOne

/-- A sequence of singleton deletions is a sequence of deletions. -/
theorem Peels.deletes {before after : Incidence} (h : Peels before after) :
    Deletes before after := by
  refine Relation.ReflTransGen.mono ?_ _ _ h
  rintro table _ ⟨row, hrow, -, rfl⟩
  exact ⟨row, hrow, rfl⟩

/-- What a sequence of deletions leaves of a consistent table. -/
structure Remainder (before after : Incidence) : Prop where
  consistent : after.Consistent
  size_eq : after.size = before.size
  arena_eq : after.arena = before.arena
  ideals_eq : after.roster.ideals = before.roster.ideals
  slots_eq : after.roster.slots = before.roster.slots
  phase_eq : after.roster.phase = before.roster.phase
  values_size_eq : after.roster.values.size = before.roster.values.size
  usedSet_subset : after.usedSet ⊆ before.usedSet
  list_eq : ∀ row ∈ after.usedSet, after.list row = before.list row

namespace Remainder

variable {first second third : Incidence}

theorem refl {table : Incidence} (h : table.Consistent) : Remainder table table where
  consistent := h
  size_eq := rfl
  arena_eq := rfl
  ideals_eq := rfl
  slots_eq := rfl
  phase_eq := rfl
  values_size_eq := rfl
  usedSet_subset := Finset.Subset.refl _
  list_eq := fun _ _ => rfl

theorem trans (h : Remainder first second) (h' : Remainder second third) :
    Remainder first third where
  consistent := h'.consistent
  size_eq := h'.size_eq.trans h.size_eq
  arena_eq := h'.arena_eq.trans h.arena_eq
  ideals_eq := h'.ideals_eq.trans h.ideals_eq
  slots_eq := h'.slots_eq.trans h.slots_eq
  phase_eq := h'.phase_eq.trans h.phase_eq
  values_size_eq := h'.values_size_eq.trans h.values_size_eq
  usedSet_subset := h'.usedSet_subset.trans h.usedSet_subset
  list_eq := fun row hrow =>
    (h'.list_eq row hrow).trans (h.list_eq row (h'.usedSet_subset hrow))

end Remainder

theorem remainder_delete {table : Incidence} (h : table.Consistent) {row : ℕ}
    (hrow : row ∈ table.usedSet) : Remainder table (table.delete row) := by
  have hdropped := h.dropped_delete hrow
  have hsubset : (table.delete row).usedSet ⊆ table.usedSet := by
    rw [usedSet_delete]
    exact Finset.erase_subset _ _
  refine ⟨h.delete hrow, ?_, hdropped.arena_eq, hdropped.ideals_eq, hdropped.slots_eq,
    hdropped.phase_eq, hdropped.values_size_eq, hsubset, ?_⟩
  · simp [size]
  · intro other hother
    rw [usedSet_delete] at hother
    exact h.list_delete_of_ne hrow (Finset.ne_of_mem_erase hother)

/-- Deletions leave a remainder of a consistent table. -/
theorem Deletes.remainder {before after : Incidence} (h : Deletes before after)
    (hbefore : before.Consistent) : Remainder before after := by
  induction h with
  | refl => exact .refl hbefore
  | tail _ hstep ih =>
    obtain ⟨row, hrow, rfl⟩ := hstep
    exact ih.trans (remainder_delete ih.consistent hrow)

/-- Deletions of rows with a singleton peel rows off. -/
theorem Peels.rows {before after : Incidence} (h : Peels before after)
    (hbefore : before.Consistent) :
    Rows.Peels before.list before.usedSet after.usedSet := by
  induction h with
  | refl => exact .refl _
  | @tail middle _ hrest hstep ih =>
    obtain ⟨row, hrow, hsingleton, rfl⟩ := hstep
    have hremainder := (Peels.deletes hrest).remainder hbefore
    obtain ⟨slot, hslot, hone⟩ := hremainder.consistent.hasSingleton_iff.mp hsingleton
    rw [hremainder.list_eq row hrow] at hslot
    rw [Rows.references_congr hremainder.list_eq] at hone
    rw [usedSet_delete]
    exact ih.trans (.step hrow hslot hone (.refl _))

end SieveFilter.Incidence
