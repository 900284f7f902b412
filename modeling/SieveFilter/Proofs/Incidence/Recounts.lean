import SieveFilter.Incidence.Access
import SieveFilter.Proofs.Incidence.Consistency
import SieveFilter.Proofs.Support.Tallies
import Mathlib.Algebra.BigOperators.Ring.Finset

/-!
# Recounts

A recount from the lists finds for each slot the references that the used rows make to it.  So the check of
the counts decides consistency, for tables whose lists refer to slots of the roster only.  On a consistent table
no operation breaks off, except at a row that the table does not have or, when it is deleted, does not use.
-/

namespace SieveFilter.Incidence

variable {table : Incidence}

theorem recount_eq_foldl_tally (table : Incidence) :
    table.recount =
      table.usedRows.foldl (fun sums row => tally (fun _ => True) 1 sums (table.list row))
        (Array.replicate table.roster.size 0) := by
  simp only [recount, tally, if_true]

theorem size_recount (table : Incidence) : table.recount.size = table.roster.size := by
  rw [recount_eq_foldl_tally, size_foldl_tally, Array.size_replicate]

/-- A recount finds the references to each slot of the roster. -/
theorem getD_recount {slot : ℕ} (hslot : slot < table.roster.size) :
    table.recount.getD slot 0 = Rows.references table.list table.usedSet slot := by
  have hsum : table.recount.getD slot 0 =
      (Array.replicate table.roster.size 0).getD slot 0 +
        (table.usedRows.map fun row => (table.list row).count slot • (1 : ℤ)).sum := by
    rw [recount_eq_foldl_tally]
    exact getD_foldl_tally (fun _ => True) trivial table.list (fun _ => 1) table.usedRows
      (by simpa using hslot)
  rw [hsum, Rows.references, ← toFinset_usedRows, Nat.cast_sum,
    List.sum_toFinset _ (nodup_usedRows table)]
  simp [hslot]

/-- A recount from the lists of a consistent table finds the values of its roster. -/
theorem Consistent.recount_eq (h : table.Consistent) : table.recount = table.roster.values := by
  apply Array.ext (by rw [size_recount, h.values_size])
  intro slot hslot hslot'
  have hcount := h.count_eq slot
  have hrecount := getD_recount (size_recount table ▸ hslot)
  simp only [count, Roster.value, Array.getD, hslot', dif_pos] at hcount
  simp only [Array.getD, hslot, dif_pos] at hrecount
  exact hrecount.trans hcount.symm

/-- The check of the counts passes on a consistent table. -/
theorem Consistent.isConsistent (h : table.Consistent) : table.isConsistent = true := by
  have hlive : table.roster.liveCount = table.liveIdeals := by
    rw [Roster.liveCount_eq_card, h.liveIdeals_eq]
  have hrows : table.usedCount = table.liveRows := by
    rw [usedCount_eq_card, h.liveRows_eq]
  have hpositive : table.roster.values.countP (0 < ·) = table.liveIdeals := hlive
  simp [Incidence.isConsistent, h.recount_eq, hpositive, hlive, hrows]

theorem resolves_iff :
    table.resolves = true ↔
      ∀ row ∈ table.usedSet, ∀ slot ∈ table.list row, slot < table.roster.size := by
  simp only [resolves, List.all_eq_true, decide_eq_true_eq, ← toFinset_usedRows,
    List.mem_toFinset]

/-- The list of a used row of a consistent table refers to slots of the roster only: other slots have no
count. -/
theorem Consistent.lt_size_of_mem (h : table.Consistent) {row slot : ℕ} (hrow : row ∈ table.usedSet)
    (hslot : slot ∈ table.list row) : slot < table.roster.size := by
  have hheld : 0 < Rows.references table.list table.usedSet slot :=
    Rows.references_pos_iff.mpr (Rows.mem_referenced.mpr ⟨row, hrow, hslot⟩)
  have hcount := h.count_eq slot
  rw [← h.values_size]
  apply Roster.lt_size_of_value_ne_zero
  simp only [count] at hcount
  omega

theorem Consistent.resolves (h : table.Consistent) : table.resolves = true :=
  resolves_iff.mpr fun _ hrow _ hslot => h.lt_size_of_mem hrow hslot

/-- A table is consistent exactly when the check of its counts passes and its lists refer to slots of the
roster only, given that there is one list a row and one value a slot. -/
theorem consistent_iff :
    table.Consistent ↔
      table.lists.size = table.size ∧ table.roster.values.size = table.roster.size ∧
        table.resolves = true ∧ table.isConsistent = true := by
  constructor
  · intro h
    exact ⟨h.lists_size, h.values_size, h.resolves, h.isConsistent⟩
  · rintro ⟨hlists, hvalues, hresolves, hcheck⟩
    simp only [Incidence.isConsistent, Bool.and_eq_true, beq_iff_eq] at hcheck
    obtain ⟨⟨⟨hrecount, -⟩, hlive⟩, hrows⟩ := hcheck
    refine ⟨hlists, hvalues, ?_, ?_, ?_⟩
    · intro slot
      by_cases hslot : slot < table.roster.size
      · rw [← getD_recount hslot, hrecount]
        rfl
      · have hnone : slot ∉ Rows.referenced table.list table.usedSet := by
          intro hmem
          obtain ⟨row, hrow, hlisted⟩ := Rows.mem_referenced.mp hmem
          exact hslot (resolves_iff.mp hresolves row hrow slot hlisted)
        rw [Rows.references_eq_zero_iff.mpr hnone]
        exact Roster.value_eq_zero_of_size_le (hvalues ▸ Nat.not_lt.mp hslot)
    · rw [← hlive, Roster.liveCount_eq_card]
    · rw [← hrows, usedCount_eq_card]

instance (table : Incidence) : Decidable table.Consistent :=
  decidable_of_iff _ consistent_iff.symm

/-! ## Operations that do not break off -/

/-- A list is given to any row of the table, used or not. -/
theorem registerAt_eq {row : ℕ} (hrow : row < table.size) (ideals : List Ideal) :
    table.registerAt row ideals = table.register row ideals := by
  simp only [registerAt, hrow, if_true]
  obtain ⟨registered, notices, outcome⟩ := table.register row ideals
  cases outcome with
  | error cause => rfl
  | ok value => simp [Run.next, Run.done, Run.afterAll]

theorem list?_of_mem_usedSet {row : ℕ} (hrow : row ∈ table.usedSet) :
    table.list? row = some (table.list row) :=
  if_pos (lt_size_of_mem_usedSet hrow)

theorem anySingle?_eq {slots : List ℕ} (hslots : ∀ slot ∈ slots, slot < table.roster.values.size) :
    table.anySingle? slots = some (slots.any (table.count · == 1)) := by
  induction slots with
  | nil => rfl
  | cons slot rest ih =>
    have hvalue := Roster.value?_eq_some (hslots slot List.mem_cons_self)
    have hrest := ih fun other hother => hslots other (List.mem_cons_of_mem slot hother)
    rw [anySingle?, hvalue, Option.bind_eq_bind, Option.bind_some, hrest, List.any_cons, count]
    split
    next hone => simp [hone]
    next hmore => simp [hmore]

namespace Consistent

/-- An operation that reads the lists of all used rows has its value. -/
theorem whenResolved_eq (h : table.Consistent) (value : α) :
    table.whenResolved value = some value :=
  if_pos h.resolves

/-- Whether a used row has a singleton can always be told. -/
theorem hasSingleton?_eq (h : table.Consistent) {row : ℕ} (hrow : row ∈ table.usedSet) :
    table.hasSingleton? row = some (table.hasSingleton row) := by
  rw [Incidence.hasSingleton?, list?_of_mem_usedSet hrow, Option.bind_some]
  exact anySingle?_eq fun slot hslot => h.values_size ▸ h.lt_size_of_mem hrow hslot

/-- Each used row can be deleted, in every build. -/
theorem delete?_eq (h : table.Consistent) (build : Build) {row : ℕ} (hrow : row ∈ table.usedSet) :
    table.delete? build row = some (table.delete row) := by
  have hused : table.isUsed? row = some true := by
    have hmark := mem_usedSet.mp hrow
    have hin : row < table.used.size := lt_size_of_mem_usedSet hrow
    rw [isUsed, Array.getD_eq_getD_getElem?, Array.getElem?_eq_getElem hin, Option.getD_some] at hmark
    rw [isUsed?, Array.getElem?_eq_getElem hin, hmark]
  have hslots : (table.list row).all (· < table.roster.size) = true :=
    List.all_eq_true.mpr fun slot hslot => decide_eq_true (h.lt_size_of_mem hrow hslot)
  simp [Incidence.delete?, hused, hslots]

/-- Nothing but a sum that does not fit breaks off a trimming. -/
theorem trimAt_eq (h : table.Consistent) (build : Build) (keep : ℕ) (cost : Cost) :
    table.trimAt build keep cost = table.trimIn build keep cost := by
  rw [Incidence.trimAt, h.resolves, Bool.or_true, if_pos rfl]

theorem pruneAt_eq (h : table.Consistent) (build : Build) (keep : ℕ) (final : Bool) (cost : Cost) :
    table.pruneAt build keep final cost = table.pruneIn build keep final cost :=
  if_pos h.resolves

end Consistent

end SieveFilter.Incidence
