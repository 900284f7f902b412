import SieveFilter.Proofs.Reduction.Decoding
import Mathlib.Data.Set.Function

/-!
# Looking up columns

Renumbering makes the look-up of columns a bijection between the ideals that are counted and the numbers below
the number of columns, increasing in slot order.  The column map that it writes is the inverse: line by line, it
has the ideal of each column.
-/

namespace SieveFilter.Roster

open Text (terminated)

/-- The slots with a positive value, in order. -/
def positiveSlots (roster : Roster) : List ℕ :=
  (List.range roster.size).filter fun slot => 0 < roster.value slot

/-- The ideals whose slots have a positive value. -/
def counted (roster : Roster) : Set Ideal :=
  {ideal | ∃ slot, roster.slot? ideal = some slot ∧ 0 < roster.value slot}

/-- What renumbering makes of the values and the look-up of a roster. -/
structure GivesColumns (before after : Roster) : Prop where
  ideals_eq : after.ideals = before.ideals
  slots_eq : after.slots = before.slots
  values_size_eq : after.values.size = before.values.size
  /-- The slots with a positive value are numbered from one on. -/
  value_positive : ∀ (k slot : ℕ), before.positiveSlots[k]? = some slot → after.value slot = k + 1
  value_zero : ∀ slot < before.size, before.value slot = 0 → after.value slot = noColumn
  columnOf_positive : ∀ (k slot : ℕ) ideal, before.positiveSlots[k]? = some slot →
    before.ideal? slot = some ideal → after.columnOf ideal = .ok (some k)
  columnOf_other : ∀ ideal ∉ before.counted, after.columnOf ideal = .ok none
  bijective : Set.BijOn after.columnOf before.counted
    {found | ∃ column < before.liveCount, found = .ok (some column)}
  increasing : ∀ slot other ideal ideal' column column', before.ideal? slot = some ideal →
    before.ideal? other = some ideal' → after.columnOf ideal = .ok (some column) →
      after.columnOf ideal' = .ok (some column') → slot < other → column < column'

/-- A text is the column map of a roster, with the given ideals behind its columns: it has a line for each
column, and reading it gives back which ideal has which column. -/
structure MapsColumns (after : Roster) (ideals : List Ideal) (text : List Char) : Prop where
  column_iff : ∀ (column : ℕ) ideal,
    ideals[column]? = some ideal ↔ after.columnOf ideal = .ok (some column)
  text_eq : text = terminated (ideals.mapIdx mapWords)
  read?_text : ColumnMap.read? text = some (ideals.mapIdx Prod.mk)

/-! ## Positive slots -/

variable {before after : Roster}

theorem positiveSlots_eq (hnonneg : ∀ slot, 0 ≤ before.value slot) :
    before.positiveSlots = before.liveBelow before.size := by
  apply List.filter_congr
  intro slot _
  have hslot := hnonneg slot
  simp only [decide_eq_decide]
  omega

theorem length_positiveSlots (hsize : before.values.size = before.size) :
    before.positiveSlots.length = before.liveCount := by
  rw [liveCount_eq_card, liveSlots, positiveSlots, hsize,
    ← List.toFinset_card_of_nodup (List.nodup_range.filter _)]
  congr 1
  ext slot
  simp

/-! ## The look-up -/

/-- An ideal has the column of its slot, and no others have one. -/
theorem Renumbered.columnOf_iff (h : Renumbered before after) (hwellFormed : before.WellFormed)
    (hsmall : before.size < 2 ^ 32) {ideal : Ideal} {column : ℕ} :
    after.columnOf ideal = .ok (some column) ↔
      ∃ slot, (before.liveBelow before.size)[column]? = some slot ∧ before.ideal? slot = some ideal := by
  constructor
  · intro hcolumn
    by_cases hdead : ∀ slot, before.ideal? slot = some ideal → before.value slot = 0
    · rw [h.columnOf_eq_none hwellFormed hsmall hdead] at hcolumn
      cases hcolumn
    · push Not at hdead
      obtain ⟨slot, hslot, hlive⟩ := hdead
      rw [h.columnOf_eq hwellFormed hsmall hslot hlive] at hcolumn
      cases hcolumn
      exact ⟨slot, getElem?_liveBelow_column (mem_liveBelow.mpr ⟨lt_size_of_ideal? hslot, hlive⟩), hslot⟩
  · rintro ⟨slot, hposition, hslot⟩
    have hlive := (mem_liveBelow.mp (List.mem_of_getElem? hposition)).2
    rw [h.columnOf_eq hwellFormed hsmall hslot hlive, column_eq_of_getElem? hposition]

theorem mem_counted_iff (hwellFormed : before.WellFormed) (hnonneg : ∀ slot, 0 ≤ before.value slot)
    {ideal : Ideal} :
    ideal ∈ before.counted ↔ ∃ slot, before.ideal? slot = some ideal ∧ before.value slot ≠ 0 := by
  simp only [counted, Set.mem_ofPred_eq, hwellFormed.slot_iff]
  refine exists_congr fun slot => and_congr_right fun _ => ?_
  have hslot := hnonneg slot
  omega

/-- The look-up is a bijection between the ideals that are counted and the columns. -/
theorem Renumbered.bijOn_columnOf (h : Renumbered before after) (hwellFormed : before.WellFormed)
    (hsmall : before.size < 2 ^ 32) (hnonneg : ∀ slot, 0 ≤ before.value slot) :
    Set.BijOn after.columnOf before.counted
      {found | ∃ column < before.liveCount, found = .ok (some column)} := by
  have hcount : (before.liveBelow before.size).length = before.liveCount := by
    rw [← positiveSlots_eq hnonneg, length_positiveSlots hwellFormed.values_size]
  refine ⟨?_, ?_, ?_⟩
  · intro ideal hideal
    obtain ⟨slot, hslot, hlive⟩ := (mem_counted_iff hwellFormed hnonneg).mp hideal
    have hmem := mem_liveBelow.mpr ⟨lt_size_of_ideal? hslot, hlive⟩
    have hin := (List.getElem?_eq_some_iff.mp (getElem?_liveBelow_column hmem)).1
    exact ⟨_, hcount ▸ hin, h.columnOf_eq hwellFormed hsmall hslot hlive⟩
  · intro ideal hideal other _ hsame
    obtain ⟨slot, hslot, hlive⟩ := (mem_counted_iff hwellFormed hnonneg).mp hideal
    rw [h.columnOf_eq hwellFormed hsmall hslot hlive, eq_comm,
      h.columnOf_iff hwellFormed hsmall] at hsame
    obtain ⟨found, hposition, hother⟩ := hsame
    have hmem := mem_liveBelow.mpr ⟨lt_size_of_ideal? hslot, hlive⟩
    rw [getElem?_liveBelow_column hmem] at hposition
    cases hposition
    exact Option.some_injective _ (hslot.symm.trans hother)
  · rintro found ⟨column, hcolumn, rfl⟩
    have hin : column < (before.liveBelow before.size).length := hcount ▸ hcolumn
    have hposition := List.getElem?_eq_getElem hin
    obtain ⟨hbelow, hlive⟩ := mem_liveBelow.mp (List.getElem_mem hin)
    obtain ⟨ideal, hideal⟩ := exists_ideal? hbelow
    exact ⟨ideal, (mem_counted_iff hwellFormed hnonneg).mpr ⟨_, hideal, hlive⟩,
      (h.columnOf_iff hwellFormed hsmall).mpr ⟨_, hposition, hideal⟩⟩

/-- Columns increase with slots. -/
theorem column_lt_column {slot other : ℕ} (hlt : slot < other) (hlive : before.value slot ≠ 0) :
    before.column slot < before.column other := by
  have hbelow : before.liveBelow (slot + 1) <+: before.liveBelow other := by
    obtain ⟨rest, rfl⟩ := Nat.exists_eq_add_of_le (Nat.succ_le_of_lt hlt)
    rw [liveBelow, liveBelow, List.range_add (n := slot + 1), List.filter_append]
    exact List.prefix_append _ _
  have hle := hbelow.length_le
  rw [liveBelow_succ_of_ne_zero hlive, List.length_append, List.length_singleton] at hle
  exact hle

theorem Renumbered.increasing (h : Renumbered before after) (hwellFormed : before.WellFormed)
    (hsmall : before.size < 2 ^ 32) {slot other column column' : ℕ} {ideal ideal' : Ideal}
    (hslot : before.ideal? slot = some ideal) (hother : before.ideal? other = some ideal')
    (hcolumn : after.columnOf ideal = .ok (some column))
    (hcolumn' : after.columnOf ideal' = .ok (some column')) (hlt : slot < other) : column < column' := by
  obtain ⟨found, hposition, hfound⟩ := (h.columnOf_iff hwellFormed hsmall).mp hcolumn
  obtain ⟨found', hposition', hfound'⟩ := (h.columnOf_iff hwellFormed hsmall).mp hcolumn'
  obtain rfl := hwellFormed.slot_unique hslot hfound
  obtain rfl := hwellFormed.slot_unique hother hfound'
  rw [← column_eq_of_getElem? hposition, ← column_eq_of_getElem? hposition']
  exact column_lt_column hlt (mem_liveBelow.mp (List.mem_of_getElem? hposition)).2

theorem Renumbered.givesColumns (h : Renumbered before after) (hwellFormed : before.WellFormed)
    (hsmall : before.size < 2 ^ 32) (hnonneg : ∀ slot, 0 ≤ before.value slot) :
    GivesColumns before after where
  ideals_eq := h.ideals_eq
  slots_eq := h.slots_eq
  values_size_eq := h.values_size_eq
  value_positive := by
    intro k slot hposition
    rw [positiveSlots_eq hnonneg] at hposition
    obtain ⟨hin, hlive⟩ := mem_liveBelow.mp (List.mem_of_getElem? hposition)
    rw [h.value_eq slot hin, columnValue, if_neg hlive, column_eq_of_getElem? hposition]
  value_zero := by
    intro slot hin hzero
    rw [h.value_eq slot hin, columnValue, if_pos hzero]
  columnOf_positive := by
    intro k slot ideal hposition hslot
    rw [positiveSlots_eq hnonneg] at hposition
    exact (h.columnOf_iff hwellFormed hsmall).mpr ⟨slot, hposition, hslot⟩
  columnOf_other := by
    intro ideal hideal
    rw [mem_counted_iff hwellFormed hnonneg] at hideal
    push Not at hideal
    exact h.columnOf_eq_none hwellFormed hsmall hideal
  bijective := h.bijOn_columnOf hwellFormed hsmall hnonneg
  increasing := by
    intro slot other ideal ideal' column column' hslot hother hcolumn hcolumn'
    exact h.increasing hwellFormed hsmall hslot hother hcolumn hcolumn'

/-! ## The column map -/

/-- Numbering the live slots by their columns numbers them by their positions. -/
theorem map_liveBelow_eq_mapIdx (roster : Roster) (n : ℕ) {α : Type} (line : ℕ → Ideal → α) :
    ((roster.liveBelow n).map fun slot => line (roster.column slot) (roster.idealAt slot)) =
      ((roster.liveBelow n).map roster.idealAt).mapIdx line := by
  apply List.ext_getElem?
  intro position
  rw [List.getElem?_map, List.getElem?_mapIdx, List.getElem?_map]
  cases hposition : (roster.liveBelow n)[position]? with
  | none => rfl
  | some slot => rw [Option.map_some, Option.map_some, Option.map_some, column_eq_of_getElem? hposition]

/-- The column map of a roster has the ideals of its live slots, in order. -/
theorem Renumbered.mapsColumns (h : Renumbered before after) (hwellFormed : before.WellFormed)
    (hsmall : before.size < 2 ^ 32) :
    MapsColumns after ((before.liveBelow before.size).map before.idealAt)
      (before.mapText before.size) where
  column_iff := by
    intro column ideal
    rw [h.columnOf_iff hwellFormed hsmall, List.getElem?_map, Option.map_eq_some_iff]
    refine exists_congr fun slot => and_congr_right fun hposition => ?_
    have hin := (mem_liveBelow.mp (List.mem_of_getElem? hposition)).1
    obtain ⟨found, hfound⟩ := exists_ideal? hin
    rw [idealAt, hfound, Option.getD_some, Option.some.injEq]
  text_eq := by
    rw [mapText, map_liveBelow_eq_mapIdx]
  read?_text := by
    rw [read?_mapText, map_liveBelow_eq_mapIdx before before.size Prod.mk]

/-- Renumbering a roster that counts, with a map that has no limit, gives the ideals that are counted the
columns from zero on in slot order and writes the column map, which is the inverse of the look-up.  A second
renumbering is refused and changes nothing. -/
theorem renumber_gives_columns {roster : Roster} (hwellFormed : roster.WellFormed)
    (hphase : roster.phase = .counting) (hnonneg : ∀ slot, 0 ≤ roster.value slot)
    (hsmall : roster.size < 2 ^ 31) {sink : Sink} (hfree : sink.limit = none) :
    ∃ after ideals text,
      (roster.renumber (some sink)).Ends (after, some (sink.appended text)) roster.liveCount ∧
      GivesColumns roster after ∧ ideals.length = roster.liveCount ∧ MapsColumns after ideals text ∧
      ∀ map, after.renumber map = .fail (after, map) (.misuse .renumberedTwice) := by
  have hsmall : roster.size < 2 ^ 32 := by omega
  have hcolumns : roster.column roster.size = roster.liveCount := by
    rw [column, ← positiveSlots_eq hnonneg, length_positiveSlots hwellFormed.values_size]
  obtain ⟨after, hends, -, hrenumbered⟩ := exists_renumbered hphase hwellFormed.values_size
    fun other (hother : other ∈ some sink) => Option.mem_some_iff.mp hother ▸ hfree
  refine ⟨after, _, _, hcolumns ▸ hends, hrenumbered.givesColumns hwellFormed hsmall hnonneg, ?_,
    hrenumbered.mapsColumns hwellFormed hsmall, ?_⟩
  · rw [List.length_map]
    exact hcolumns
  · intro map
    simp only [renumber, beginRenumbering, hrenumbered.phase_eq]

/-- Five ideals of which one is not referred to, and one has a single reference. -/
def sampleCounting : Roster :=
  { (Incidence.slotsOf empty [.rational 2, ⟨3, 1⟩, .rational 5, ⟨7, 6⟩, .rational 11]).2 with
    values := #[2, 0, 3, 1, 2] }

theorem wellFormed_sampleCounting : sampleCounting.WellFormed :=
  ⟨rfl, (Incidence.learned_slotsOf wellFormed_empty
    [.rational 2, ⟨3, 1⟩, .rational 5, ⟨7, 6⟩, .rational 11]).1.wellFormed.slot_iff⟩

theorem value_sampleCounting_nonneg (slot : ℕ) : 0 ≤ sampleCounting.value slot := by
  have hbelow : ∀ slot < 5, 0 ≤ sampleCounting.value slot := by decide
  by_cases hin : slot < 5
  · exact hbelow slot hin
  · exact (value_eq_zero_of_size_le (Nat.not_lt.mp hin)).ge

/-- The columns skip the ideal that is not referred to. -/
theorem renumber_gives_columns_sample :
    ∃ after ideals text,
      (sampleCounting.renumber (some (.empty none))).Ends (after, some ((Sink.empty none).appended text)) 4 ∧
      ideals.length = 4 ∧ MapsColumns after ideals text ∧
      after.columnOf (.rational 5) = .ok (some 1) ∧ ideals[1]? = some (.rational 5) ∧
      after.columnOf ⟨3, 1⟩ = .ok none ∧ after.columnOf (.rational 13) = .ok none := by
  obtain ⟨after, ideals, text, hends, hcolumns, hlength, hmap, -⟩ :=
    renumber_gives_columns wellFormed_sampleCounting rfl value_sampleCounting_nonneg (by decide)
      (rfl : (Sink.empty none).limit = none)
  have hfive : after.columnOf (.rational 5) = .ok (some 1) :=
    hcolumns.columnOf_positive 1 2 (.rational 5) (by decide) (by decide)
  refine ⟨after, ideals, text, hends, hlength, hmap, hfive, (hmap.column_iff _ _).mpr hfive,
    hcolumns.columnOf_other _ ?_, hcolumns.columnOf_other _ ?_⟩
  · rintro ⟨slot, hslot, hpositive⟩
    have hfound : sampleCounting.slot? ⟨3, 1⟩ = some 1 := by decide +kernel
    obtain rfl := Option.some_injective _ (hfound.symm.trans hslot)
    exact absurd hpositive (by decide)
  · rintro ⟨slot, hslot, -⟩
    have hnone : sampleCounting.slot? (.rational 13) = none := by decide +kernel
    rw [hnone] at hslot
    cases hslot

end SieveFilter.Roster
