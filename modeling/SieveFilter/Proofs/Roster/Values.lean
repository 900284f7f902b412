import SieveFilter.Roster
import Mathlib.Data.Finset.Card
import Mathlib.Data.Finset.Range

/-!
# Values of rosters

What a change of one value does to the values and to the set of slots with a positive value.  While a
roster counts, the live slots are those that are still referred to.
-/

namespace SieveFilter.Roster

/-- The slots with a positive value. -/
def liveSlots (roster : Roster) : Finset ℕ :=
  (Finset.range roster.values.size).filter fun slot => 0 < roster.value slot

theorem value_eq_zero_of_size_le {roster : Roster} {slot : ℕ} (h : roster.values.size ≤ slot) :
    roster.value slot = 0 := by
  simp [value, Array.getD, Nat.not_lt.mpr h]

theorem lt_size_of_value_ne_zero {roster : Roster} {slot : ℕ} (h : roster.value slot ≠ 0) :
    slot < roster.values.size := by
  by_contra hout
  exact h (value_eq_zero_of_size_le (Nat.not_lt.mp hout))

/-- A slot is live as soon as its value is positive; slots that do not exist read as zero. -/
theorem mem_liveSlots {roster : Roster} {slot : ℕ} :
    slot ∈ roster.liveSlots ↔ 0 < roster.value slot := by
  simp only [liveSlots, Finset.mem_filter, Finset.mem_range, and_iff_right_iff_imp]
  intro hpos
  exact lt_size_of_value_ne_zero (by omega)

@[simp] theorem adjust_ideals (roster : Roster) (slot : ℕ) (change : ℤ → ℤ) :
    (roster.adjust slot change).ideals = roster.ideals := rfl

@[simp] theorem adjust_slots (roster : Roster) (slot : ℕ) (change : ℤ → ℤ) :
    (roster.adjust slot change).slots = roster.slots := rfl

@[simp] theorem adjust_phase (roster : Roster) (slot : ℕ) (change : ℤ → ℤ) :
    (roster.adjust slot change).phase = roster.phase := rfl

@[simp] theorem adjust_values_size (roster : Roster) (slot : ℕ) (change : ℤ → ℤ) :
    (roster.adjust slot change).values.size = roster.values.size := by
  simp [adjust]

/-- A change touches the value of its own slot only. -/
theorem value_adjust (roster : Roster) (slot other : ℕ) (change : ℤ → ℤ) :
    (roster.adjust slot change).value other =
      if other = slot ∧ slot < roster.values.size then change (roster.value slot)
      else roster.value other := by
  simp only [value, adjust, Array.getD_eq_getD_getElem?, Array.getElem?_modify]
  by_cases heq : other = slot
  · subst heq
    by_cases hslot : other < roster.values.size
    · simp [hslot]
    · simp [hslot]
  · simp [heq, Ne.symm heq]

theorem value_adjust_self {roster : Roster} {slot : ℕ} (hslot : slot < roster.values.size)
    (change : ℤ → ℤ) :
    (roster.adjust slot change).value slot = change (roster.value slot) := by
  rw [value_adjust, if_pos ⟨rfl, hslot⟩]

theorem value_adjust_of_ne {roster : Roster} {slot other : ℕ} (hne : other ≠ slot)
    (change : ℤ → ℤ) :
    (roster.adjust slot change).value other = roster.value other := by
  rw [value_adjust, if_neg fun h => hne h.1]

theorem value?_eq_some {roster : Roster} {slot : ℕ} (hslot : slot < roster.values.size) :
    roster.value? slot = some (roster.value slot) := by
  rw [value?, value, Array.getD_eq_getD_getElem?, Array.getElem?_eq_getElem hslot, Option.getD_some]

theorem value?_adjust (roster : Roster) (slot : ℕ) (change : ℤ → ℤ) (other : ℕ) :
    (roster.adjust slot change).value? other =
      if other = slot then (roster.value? slot).map change else roster.value? other := by
  rw [value?, value?, adjust, Array.getElem?_modify]
  by_cases heq : other = slot
  · rw [if_pos heq.symm, if_pos heq, heq]
  · rw [if_neg (Ne.symm heq), if_neg heq, value?]

/-- A slot whose last reference is dropped is no longer live. -/
theorem liveSlots_decrement_of_eq_one {roster : Roster} {slot : ℕ}
    (hone : roster.value slot = 1) :
    (roster.decrement slot).liveSlots = roster.liveSlots.erase slot := by
  have hslot : slot < roster.values.size := lt_size_of_value_ne_zero (by omega)
  ext other
  rw [mem_liveSlots, Finset.mem_erase, mem_liveSlots]
  by_cases heq : other = slot
  · subst heq
    simp [decrement, value_adjust_self hslot, hone]
  · simp [decrement, value_adjust_of_ne heq, heq]

/-- A slot with further references stays live. -/
theorem liveSlots_decrement_of_one_lt {roster : Roster} {slot : ℕ}
    (hmore : 1 < roster.value slot) :
    (roster.decrement slot).liveSlots = roster.liveSlots := by
  have hslot : slot < roster.values.size := lt_size_of_value_ne_zero (by omega)
  ext other
  rw [mem_liveSlots, mem_liveSlots]
  by_cases heq : other = slot
  · subst heq
    simp only [decrement, value_adjust_self hslot]
    omega
  · simp [decrement, value_adjust_of_ne heq]

/-- The first reference makes a slot live, and further ones keep it so. -/
theorem liveSlots_increment {roster : Roster} {slot : ℕ}
    (hslot : slot < roster.values.size) (hnonneg : 0 ≤ roster.value slot) :
    (roster.increment slot).liveSlots = Insert.insert slot roster.liveSlots := by
  ext other
  rw [mem_liveSlots, Finset.mem_insert, mem_liveSlots]
  by_cases heq : other = slot
  · subst heq
    simp only [increment, value_adjust_self hslot, true_or, iff_true]
    omega
  · simp [increment, value_adjust_of_ne heq, heq]

/-- The count of the positive values is the number of live slots. -/
theorem liveCount_eq_card (roster : Roster) : roster.liveCount = roster.liveSlots.card := by
  have hvalues : roster.values.toList = (List.range roster.values.size).map roster.value := by
    apply List.ext_getElem
    · simp
    · intro slot hslot hslot'
      have hsize : slot < roster.values.size := by simpa using hslot
      simp [value, Array.getD, hsize]
  rw [liveCount, liveSlots, ← Array.countP_toList, hvalues, List.countP_map,
    List.countP_eq_length_filter, ← List.toFinset_card_of_nodup (List.nodup_range.filter _)]
  congr 1
  ext slot
  simp

end SieveFilter.Roster
