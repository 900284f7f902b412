import SieveFilter.Incidence
import SieveFilter.Proofs.Roster.Values
import SieveFilter.Proofs.Support.FirstOccurrences

/-!
# Ideals and slots of rosters

A roster is well formed when its slots and its ideals correspond one to one.  Looking up ideals, and giving
slots to those that are new, keeps it so: slots given before keep their ideals and values, and the number of
slots stays bounded by the number of ideals met.
-/

namespace SieveFilter.Roster

/-- Slots and ideals correspond, and every slot has a value. -/
structure WellFormed (roster : Roster) : Prop where
  values_size : roster.values.size = roster.size
  slot_iff : ∀ ideal slot, roster.slot? ideal = some slot ↔ roster.ideal? slot = some ideal

/-- The ideals that have a slot. -/
def known (roster : Roster) : Finset Ideal :=
  roster.ideals.toList.toFinset

theorem mem_known {roster : Roster} {ideal : Ideal} :
    ideal ∈ roster.known ↔ ∃ slot, roster.ideal? slot = some ideal := by
  rw [known, List.mem_toFinset, List.mem_iff_getElem?]
  simp only [Array.getElem?_toList, ideal?]

theorem lt_size_of_ideal? {roster : Roster} {slot : ℕ} {ideal : Ideal}
    (hslot : roster.ideal? slot = some ideal) : slot < roster.size :=
  (Array.getElem?_eq_some_iff.mp hslot).1

theorem exists_ideal? {roster : Roster} {slot : ℕ} (hslot : slot < roster.size) :
    ∃ ideal, roster.ideal? slot = some ideal :=
  ⟨roster.ideals[slot], Array.getElem?_eq_getElem hslot⟩

/-- Slots that stand for the ideals of a list stand for some of these ideals each. -/
theorem exists_ideal_of_map_eq {roster : Roster} {ideals : List Ideal} {slots : List ℕ}
    (hmap : slots.map roster.ideal? = ideals.map some) {slot : ℕ} (hslot : slot ∈ slots) :
    ∃ ideal ∈ ideals, roster.ideal? slot = some ideal := by
  have hmem : roster.ideal? slot ∈ slots.map roster.ideal? := List.mem_map_of_mem hslot
  rw [hmap, List.mem_map] at hmem
  obtain ⟨ideal, hideal, heq⟩ := hmem
  exact ⟨ideal, hideal, heq.symm⟩

theorem wellFormed_empty : WellFormed empty := by
  constructor
  · rfl
  · intro ideal slot
    simp [slot?, ideal?, empty]

namespace WellFormed

variable {roster : Roster}

/-- Different slots have different ideals. -/
theorem slot_unique (h : roster.WellFormed) {slot other : ℕ} {ideal : Ideal}
    (hslot : roster.ideal? slot = some ideal) (hother : roster.ideal? other = some ideal) :
    slot = other := by
  rw [← h.slot_iff] at hslot hother
  exact Option.some_injective _ (hslot.symm.trans hother)

/-- There are as many slots as ideals that have one. -/
theorem card_known (h : roster.WellFormed) : roster.known.card = roster.size := by
  have hnodup : roster.ideals.toList.Nodup := by
    rw [List.nodup_iff_getElem?_ne_getElem?]
    intro slot other hlt hin heq
    have hother : roster.ideal? other = some roster.ideals.toList[other] := by
      rw [ideal?, ← Array.getElem?_toList, List.getElem?_eq_getElem hin]
    have hslot : roster.ideal? slot = some roster.ideals.toList[other] := by
      rw [ideal?, ← Array.getElem?_toList, heq, List.getElem?_eq_getElem hin]
    exact absurd (h.slot_unique hslot hother) (Nat.ne_of_lt hlt)
  rw [known, List.toFinset_card_of_nodup hnodup, Array.length_toList, size]

end WellFormed

/-! ## Giving slots -/

/-- A roster that has met further ideals. -/
structure Learned (before : Roster) (ideals : List Ideal) (after : Roster) : Prop where
  wellFormed : after.WellFormed
  ideal_mono : ∀ slot ideal, before.ideal? slot = some ideal → after.ideal? slot = some ideal
  known_subset : after.known ⊆ before.known ∪ ideals.toFinset
  value_eq : ∀ slot, after.value slot = before.value slot
  phase_eq : after.phase = before.phase

theorem Learned.refl {roster : Roster} (h : roster.WellFormed) : Learned roster [] roster :=
  ⟨h, fun _ _ hslot => hslot, Finset.subset_union_left, fun _ => rfl, rfl⟩

theorem Learned.trans {first second third : Roster} {ideal : Ideal} {ideals : List Ideal}
    (h : Learned first [ideal] second) (h' : Learned second ideals third) :
    Learned first (ideal :: ideals) third := by
  refine ⟨h'.wellFormed, fun slot key hslot => h'.ideal_mono slot key (h.ideal_mono slot key hslot),
    ?_, fun slot => (h'.value_eq slot).trans (h.value_eq slot), h'.phase_eq.trans h.phase_eq⟩
  intro key hkey
  rcases Finset.mem_union.mp (h'.known_subset hkey) with hkey | hkey
  · rcases Finset.mem_union.mp (h.known_subset hkey) with hkey | hkey
    · exact Finset.mem_union_left _ hkey
    · simp only [List.toFinset_cons, List.toFinset_nil, Finset.mem_insert, Finset.notMem_empty,
        or_false] at hkey
      simp [hkey]
  · simp only [List.toFinset_cons, Finset.mem_union, Finset.mem_insert]
    exact .inr (.inr hkey)

/-- A roster that knows only so many more ideals has at most so many more slots. -/
theorem size_le_of_known_subset {before after : Roster} {ideals : List Ideal}
    (hbefore : before.WellFormed) (hafter : after.WellFormed)
    (hknown : after.known ⊆ before.known ∪ ideals.toFinset) :
    after.size ≤ before.size + ideals.length := by
  rw [← hbefore.card_known, ← hafter.card_known]
  calc
    after.known.card ≤ (before.known ∪ ideals.toFinset).card := Finset.card_le_card hknown
    _ ≤ before.known.card + ideals.toFinset.card := Finset.card_union_le _ _
    _ ≤ before.known.card + ideals.length :=
      Nat.add_le_add_left (List.toFinset_card_le ideals) _

theorem Learned.liveSlots_eq {before after : Roster} {ideals : List Ideal}
    (h : Learned before ideals after) : after.liveSlots = before.liveSlots := by
  ext slot
  rw [mem_liveSlots, mem_liveSlots, h.value_eq]

/-- Looking an ideal up gives its slot, a new one if it has none. -/
theorem learned_insert {roster : Roster} (h : roster.WellFormed) (ideal : Ideal) :
    Learned roster [ideal] (roster.insert ideal).2 ∧
      (roster.insert ideal).2.ideal? (roster.insert ideal).1 = some ideal := by
  cases hfound : roster.slot? ideal with
  | some slot =>
    simp only [insert, hfound]
    exact ⟨⟨h, fun _ _ hslot => hslot, Finset.subset_union_left, fun _ => rfl, rfl⟩,
      (h.slot_iff ideal slot).mp hfound⟩
  | none =>
    simp only [insert, hfound]
    have hnew : ∀ slot, roster.ideal? slot ≠ some ideal := by
      intro slot hslot
      rw [(h.slot_iff ideal slot).mpr hslot] at hfound
      cases hfound
    refine ⟨⟨⟨?_, ?_⟩, ?_, ?_, ?_, rfl⟩, ?_⟩
    · have hsize := h.values_size
      simp only [size] at hsize
      simp [size, hsize]
    · intro key slot
      have hkey := h.slot_iff key slot
      simp only [slot?, ideal?] at hkey hnew ⊢
      rw [Std.TreeMap.getElem?_insert, Array.getElem?_push]
      by_cases heq : key = ideal
      · rw [heq, if_pos (Std.ReflOrd.compare_self (a := ideal))]
        by_cases hlast : slot = roster.ideals.size
        · simp [hlast]
        · simp [hlast, Ne.symm hlast, hnew slot]
      · rw [if_neg fun hcompare => heq (Std.LawfulEqCmp.eq_of_compare hcompare).symm, hkey]
        by_cases hlast : slot = roster.ideals.size
        · simp [hlast, Ne.symm heq]
        · simp [hlast]
    · intro slot key hslot
      have hin := lt_size_of_ideal? hslot
      simp only [ideal?, size] at hslot hin ⊢
      rwa [Array.getElem?_push, if_neg (Nat.ne_of_lt hin)]
    · intro key hkey
      simp only [known, Array.toList_push, List.toFinset_append, Finset.mem_union] at hkey ⊢
      exact hkey
    · intro slot
      have hsize := h.values_size
      simp only [value, Array.getD_eq_getD_getElem?, Array.getElem?_push]
      by_cases hlast : slot = roster.values.size
      · simp [hlast]
      · simp [hlast]
    · simp [ideal?]

/-- A well-formed roster finds a slot for exactly the ideals in its list. -/
theorem WellFormed.slot?_eq_none_iff {roster : Roster} (h : roster.WellFormed) {ideal : Ideal} :
    roster.slot? ideal = none ↔ ideal ∉ roster.ideals.toList := by
  rw [← List.mem_toFinset, ← known, mem_known, Option.eq_none_iff_forall_ne_some]
  simp only [ne_eq, h.slot_iff, not_exists]

/-- Slots are numbered in the order in which their ideals are met first. -/
theorem ideals_insert {roster : Roster} (h : roster.WellFormed) {met : List Ideal}
    (hmet : roster.ideals.toList = met.eraseDups) (ideal : Ideal) :
    (roster.insert ideal).2.ideals.toList = (met ++ [ideal]).eraseDups := by
  have hmem : ideal ∈ roster.ideals.toList ↔ ideal ∈ met := by rw [hmet, List.mem_eraseDups]
  rw [eraseDups_concat, ← hmet]
  cases hfound : roster.slot? ideal with
  | some slot =>
    have hold : ideal ∈ met := by
      rw [← hmem]
      by_contra hnew
      rw [h.slot?_eq_none_iff.mpr hnew] at hfound
      cases hfound
    simp only [insert, hfound, if_pos hold]
  | none =>
    have hnew : ideal ∉ met := fun hold => h.slot?_eq_none_iff.mp hfound (hmem.mpr hold)
    simp only [insert, hfound, if_neg hnew, Array.toList_push]

end SieveFilter.Roster

namespace SieveFilter.Incidence

open Roster (Learned)

/-- The slots of ideals hold these ideals in order, and the roster has met no others. -/
theorem learned_slotsOf {roster : Roster} (h : roster.WellFormed) (ideals : List Ideal) :
    Learned roster ideals (slotsOf roster ideals).2 ∧
      (slotsOf roster ideals).1.map (slotsOf roster ideals).2.ideal? = ideals.map some := by
  induction ideals generalizing roster with
  | nil => exact ⟨.refl h, rfl⟩
  | cons ideal rest ih =>
    obtain ⟨hlearned, hslot⟩ := Roster.learned_insert h ideal
    obtain ⟨hrest, hslots⟩ := ih hlearned.wellFormed
    refine ⟨hlearned.trans hrest, ?_⟩
    simp only [slotsOf, List.map_cons]
    rw [hslots, hrest.ideal_mono _ _ hslot]

/-- Looking up a list of ideals numbers those that are new in the order in which the list has them first. -/
theorem ideals_slotsOf {roster : Roster} (h : roster.WellFormed) {met : List Ideal}
    (hmet : roster.ideals.toList = met.eraseDups) (ideals : List Ideal) :
    (slotsOf roster ideals).2.ideals.toList = (met ++ ideals).eraseDups := by
  induction ideals generalizing roster met with
  | nil =>
    rw [List.append_nil]
    exact hmet
  | cons ideal rest ih =>
    have hrest := ih (Roster.learned_insert h ideal).1.wellFormed (Roster.ideals_insert h hmet ideal)
    rwa [List.append_assoc] at hrest

end SieveFilter.Incidence

