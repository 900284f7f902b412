import SieveFilter.Incidence
import SieveFilter.Proofs.Roster.Values
import SieveFilter.Proofs.Support.References

/-!
# Consistency of the counts of a table

A table keeps four quantities beside the lists of its rows: the references to each slot, the number of
slots that are referred to, the number of used rows, and which rows are used.  It is consistent when they
all agree with the lists of the used rows.  Taking a used row out of use keeps a table consistent.
-/

namespace SieveFilter.Incidence

/-- The positions that are marked. -/
def marked (marks : Array Bool) : Finset ℕ :=
  (Finset.range marks.size).filter fun row => marks.getD row false = true

/-- The used rows of a table, as a set. -/
def usedSet (table : Incidence) : Finset ℕ :=
  marked table.used

/-- The counts that a table keeps agree with the lists of its used rows. -/
structure Consistent (table : Incidence) : Prop where
  lists_size : table.lists.size = table.size
  values_size : table.roster.values.size = table.roster.size
  count_eq : ∀ slot, table.count slot = Rows.references table.list table.usedSet slot
  liveIdeals_eq : table.liveIdeals = table.roster.liveSlots.card
  liveRows_eq : table.liveRows = table.usedSet.card

theorem lt_size_of_marked {marks : Array Bool} {row : ℕ} (hmark : marks.getD row false = true) :
    row < marks.size := by
  by_contra hout
  simp [Array.getD, hout] at hmark

/-- Positions outside are not marked, so membership needs no bound. -/
theorem mem_marked {marks : Array Bool} {row : ℕ} :
    row ∈ marked marks ↔ marks.getD row false = true := by
  simp only [marked, Finset.mem_filter, Finset.mem_range, and_iff_right_iff_imp]
  exact lt_size_of_marked

theorem marked_setIfInBounds (marks : Array Bool) (row : ℕ) :
    marked (marks.setIfInBounds row false) = (marked marks).erase row := by
  ext other
  rw [mem_marked, Finset.mem_erase, mem_marked]
  simp only [Array.getD_eq_getD_getElem?, Array.getElem?_setIfInBounds]
  by_cases heq : other = row
  · subst heq
    by_cases hin : other < marks.size
    · simp [hin]
    · simp [hin]
  · simp [heq, Ne.symm heq]

theorem mem_usedSet {table : Incidence} {row : ℕ} :
    row ∈ table.usedSet ↔ table.isUsed row = true :=
  mem_marked

theorem lt_size_of_mem_usedSet {table : Incidence} {row : ℕ} (hrow : row ∈ table.usedSet) :
    row < table.size :=
  lt_size_of_marked (mem_marked.mp hrow)

/-- The used rows in increasing order are the members of the set of used rows. -/
theorem toFinset_usedRows (table : Incidence) : table.usedRows.toFinset = table.usedSet := by
  ext row
  rw [List.mem_toFinset, mem_usedSet]
  simp only [usedRows, List.mem_filter, List.mem_range, and_iff_right_iff_imp]
  exact lt_size_of_marked

theorem nodup_usedRows (table : Incidence) : table.usedRows.Nodup :=
  List.nodup_range.filter _

/-- The count of used rows is the size of their set. -/
theorem usedCount_eq_card (table : Incidence) : table.usedCount = table.usedSet.card := by
  have hlist : table.used.toList = (List.range table.used.size).map table.isUsed := by
    apply List.ext_getElem
    · simp
    · intro row hrow hrow'
      have hsize : row < table.used.size := by simpa using hrow
      simp [isUsed, Array.getD, hsize]
  have hcount : table.usedCount = table.usedRows.length := by
    rw [usedCount, usedRows, size, ← List.countP_eq_length_filter, ← Array.count_toList,
      List.count_eq_countP, hlist, List.countP_map]
    apply List.countP_congr
    intro row _
    simp
  rw [hcount, ← toFinset_usedRows, List.toFinset_card_of_nodup (nodup_usedRows table)]

/-- Where the counts agree with the lists, a slot is live when a used row lists it. -/
theorem liveSlots_eq_referenced {table : Incidence}
    (hcount : ∀ slot, table.count slot = Rows.references table.list table.usedSet slot) :
    table.roster.liveSlots = Rows.referenced table.list table.usedSet := by
  ext slot
  have hslot := hcount slot
  rw [Roster.mem_liveSlots, ← Rows.references_pos_iff]
  simp only [count] at hslot
  omega

namespace Consistent

variable {table : Incidence}

theorem count_nonneg (h : table.Consistent) (slot : ℕ) : 0 ≤ table.count slot := by
  rw [h.count_eq]
  exact Int.natCast_nonneg _

/-- The live slots are those that used rows refer to. -/
theorem liveSlots_eq (h : table.Consistent) :
    table.roster.liveSlots = Rows.referenced table.list table.usedSet :=
  liveSlots_eq_referenced h.count_eq

/-- The excess that the table keeps is that of its used rows. -/
theorem excess_eq (h : table.Consistent) :
    table.excess = Rows.excess table.list table.usedSet := by
  rw [excess, Rows.excess, h.liveRows_eq, h.liveIdeals_eq, h.liveSlots_eq]

/-- A row has a singleton when its list has a slot that is listed exactly once. -/
theorem hasSingleton_iff (h : table.Consistent) {row : ℕ} :
    table.hasSingleton row = true ↔
      ∃ slot ∈ table.list row, Rows.references table.list table.usedSet slot = 1 := by
  rw [hasSingleton, List.any_eq_true]
  simp only [beq_iff_eq, h.count_eq]
  norm_cast

end Consistent

/-! ## Dropping references -/

@[simp] theorem dropReference_lists (table : Incidence) (slot : ℕ) :
    (table.dropReference slot).lists = table.lists := rfl

@[simp] theorem dropReference_arena (table : Incidence) (slot : ℕ) :
    (table.dropReference slot).arena = table.arena := rfl

@[simp] theorem dropReference_roster (table : Incidence) (slot : ℕ) :
    (table.dropReference slot).roster = table.roster.decrement slot := rfl

/-- The number of live slots stays right when a slot that is referred to loses a reference. -/
theorem liveIdeals_dropReference {table : Incidence} {slot : ℕ}
    (hlive : table.liveIdeals = table.roster.liveSlots.card) (hpos : 0 < table.count slot) :
    (table.dropReference slot).liveIdeals = (table.dropReference slot).roster.liveSlots.card := by
  simp only [count] at hpos
  have hslot : slot < table.roster.values.size :=
    Roster.lt_size_of_value_ne_zero (by omega)
  have hvalue : (table.roster.decrement slot).value slot = table.roster.value slot - 1 :=
    Roster.value_adjust_self hslot _
  simp only [dropReference, hvalue, beq_iff_eq]
  by_cases hone : table.roster.value slot = 1
  · have hmem : slot ∈ table.roster.liveSlots := Roster.mem_liveSlots.mpr hpos
    rw [Roster.liveSlots_decrement_of_eq_one hone, Finset.card_erase_of_mem hmem, hlive]
    simp [hone]
  · rw [Roster.liveSlots_decrement_of_one_lt (by omega), hlive]
    split
    · omega
    · rfl

theorem count_dropReference {table : Incidence} {slot other : ℕ} (hpos : 0 < table.count slot) :
    (table.dropReference slot).count other =
      table.count other - if other = slot then 1 else 0 := by
  simp only [count] at hpos
  have hslot : slot < table.roster.values.size :=
    Roster.lt_size_of_value_ne_zero (by omega)
  simp only [count, dropReference_roster, Roster.decrement, Roster.value_adjust, hslot, and_true]
  split
  · next heq => rw [heq]
  · rw [Int.sub_zero]

/-- A table after references were dropped, with each slot of `slots` losing one for each occurrence. -/
structure Dropped (before : Incidence) (slots : List ℕ) (after : Incidence) : Prop where
  lists_eq : after.lists = before.lists
  arena_eq : after.arena = before.arena
  ideals_eq : after.roster.ideals = before.roster.ideals
  slots_eq : after.roster.slots = before.roster.slots
  phase_eq : after.roster.phase = before.roster.phase
  values_size_eq : after.roster.values.size = before.roster.values.size
  count_eq : ∀ slot, after.count slot = before.count slot - slots.count slot
  liveIdeals_eq : after.liveIdeals = after.roster.liveSlots.card

/-- No count falls below zero while references are dropped, so long as there are enough of each. -/
theorem dropped_foldl (slots : List ℕ) {table : Incidence}
    (hlive : table.liveIdeals = table.roster.liveSlots.card)
    (henough : ∀ slot, (slots.count slot : ℤ) ≤ table.count slot) :
    Dropped table slots (slots.foldl dropReference table) := by
  induction slots generalizing table with
  | nil => exact ⟨rfl, rfl, rfl, rfl, rfl, rfl, by simp, hlive⟩
  | cons slot rest ih =>
    have hpos : 0 < table.count slot := by
      have hslot := henough slot
      rw [List.count_cons_self] at hslot
      omega
    have hrest : ∀ other, (rest.count other : ℤ) ≤ (table.dropReference slot).count other := by
      intro other
      have hother := henough other
      rw [count_dropReference hpos]
      rw [List.count_cons] at hother
      by_cases heq : other = slot
      · simp only [heq, beq_self_eq_true, if_true] at hother ⊢
        omega
      · simp only [heq, Ne.symm heq, beq_iff_eq, if_false] at hother ⊢
        omega
    have hdropped := ih (liveIdeals_dropReference hlive hpos) hrest
    refine ⟨hdropped.lists_eq, hdropped.arena_eq, hdropped.ideals_eq, hdropped.slots_eq,
      hdropped.phase_eq, ?_, ?_, hdropped.liveIdeals_eq⟩
    · rw [List.foldl_cons, hdropped.values_size_eq, dropReference_roster, Roster.decrement,
        Roster.adjust_values_size]
    · intro other
      rw [List.foldl_cons, hdropped.count_eq, count_dropReference hpos, List.count_cons]
      by_cases heq : other = slot
      · simp only [heq, beq_self_eq_true, if_true]
        omega
      · simp only [heq, Ne.symm heq, beq_iff_eq, if_false]
        omega

end SieveFilter.Incidence
