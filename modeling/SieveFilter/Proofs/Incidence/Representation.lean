import SieveFilter.Proofs.Incidence.Deletion
import SieveFilter.Proofs.Roster.Keys

/-!
# Tables that represent rows of ideals

The lists of a table hold slots, and slots are given in an order that depends on what was loaded before.
A table represents rows of ideals when the slots of its used rows stand for these ideals.  Whatever is said
about slots can then be said about ideals: counts, excess and core are those of the rows of ideals.
-/

namespace SieveFilter.Incidence

/-- The slots that the used rows list stand for the ideals of these rows. -/
structure Represents (table : Incidence) (ideals : ℕ → List Ideal) : Prop where
  consistent : table.Consistent
  wellFormed : table.roster.WellFormed
  list_map : ∀ row ∈ table.usedSet,
    (table.list row).map table.roster.ideal? = (ideals row).map some

namespace Represents

variable {table : Incidence} {ideals : ℕ → List Ideal}

/-- Every slot in the list of a used row stands for an ideal of that row. -/
theorem exists_ideal (h : table.Represents ideals) {row slot : ℕ} (hrow : row ∈ table.usedSet)
    (hslot : slot ∈ table.list row) :
    ∃ ideal ∈ ideals row, table.roster.ideal? slot = some ideal :=
  Roster.exists_ideal_of_map_eq (h.list_map row hrow) hslot

/-- Every ideal of a used row has a slot in the list of that row. -/
theorem exists_slot (h : table.Represents ideals) {row : ℕ} {ideal : Ideal}
    (hrow : row ∈ table.usedSet) (hideal : ideal ∈ ideals row) :
    ∃ slot ∈ table.list row, table.roster.ideal? slot = some ideal := by
  have hmem : some ideal ∈ (ideals row).map some := List.mem_map_of_mem hideal
  rwa [← h.list_map row hrow, List.mem_map] at hmem

/-- The slots that used rows list stand for different ideals. -/
theorem injOn (h : table.Represents ideals) :
    Set.InjOn table.roster.ideal? (Rows.referenced table.list table.usedSet) := by
  intro slot hslot other _ heq
  obtain ⟨row, hrow, hmem⟩ := Rows.mem_referenced.mp hslot
  obtain ⟨ideal, -, hideal⟩ := h.exists_ideal hrow hmem
  exact h.wellFormed.slot_unique hideal (heq ▸ hideal)

/-- A slot is referred to as often as its ideal. -/
theorem references_eq (h : table.Represents ideals) {slot : ℕ} {ideal : Ideal}
    (hslot : table.roster.ideal? slot = some ideal) :
    Rows.references table.list table.usedSet slot =
      Rows.references ideals table.usedSet ideal := by
  by_cases hmem : slot ∈ Rows.referenced table.list table.usedSet
  · obtain ⟨row, hrow, hin⟩ := Rows.mem_referenced.mp hmem
    obtain ⟨key, hkey, hkeySlot⟩ := h.exists_ideal hrow hin
    rw [hslot, Option.some.injEq] at hkeySlot
    have hideal : ideal ∈ Rows.referenced ideals table.usedSet :=
      Rows.mem_referenced.mpr ⟨row, hrow, hkeySlot ▸ hkey⟩
    calc
      Rows.references table.list table.usedSet slot
          = Rows.references (fun row => (ideals row).map some) table.usedSet
              (table.roster.ideal? slot) :=
        (Rows.references_rename (fun row hrow => (h.list_map row hrow).symm) h.injOn hmem).symm
      _ = Rows.references (fun row => (ideals row).map some) table.usedSet (some ideal) := by
        rw [hslot]
      _ = Rows.references ideals table.usedSet ideal :=
        Rows.references_rename (fun _ _ => rfl) (Option.some_injective Ideal).injOn hideal
  · rw [Rows.references_eq_zero_iff.mpr hmem, eq_comm, Rows.references_eq_zero_iff]
    intro hideal
    obtain ⟨row, hrow, hin⟩ := Rows.mem_referenced.mp hideal
    obtain ⟨other, hother, hotherIdeal⟩ := h.exists_slot hrow hin
    have hsame := h.wellFormed.slot_unique hslot hotherIdeal
    exact hmem (Rows.mem_referenced.mpr ⟨row, hrow, hsame ▸ hother⟩)

/-- The count of a slot is the number of references to its ideal. -/
theorem count_eq (h : table.Represents ideals) {slot : ℕ} {ideal : Ideal}
    (hslot : table.roster.ideal? slot = some ideal) :
    table.count slot = Rows.references ideals table.usedSet ideal := by
  rw [h.consistent.count_eq, h.references_eq hslot]

section

variable {S : Finset ℕ}

theorem injOn_of_subset (h : table.Represents ideals) (hS : S ⊆ table.usedSet) :
    Set.InjOn table.roster.ideal? (Rows.referenced table.list S) :=
  h.injOn.mono (Finset.coe_subset.mpr (Rows.referenced_mono hS))

/-- The excess of used rows is the same for slots and ideals. -/
theorem excess_list_eq (h : table.Represents ideals) (hS : S ⊆ table.usedSet) :
    Rows.excess table.list S = Rows.excess ideals S := by
  have hsome : Rows.excess (fun row => (ideals row).map some) S = Rows.excess ideals S :=
    Rows.excess_rename (fun row _ => rfl) (Option.some_injective Ideal).injOn
  rw [← hsome]
  exact (Rows.excess_rename (fun row hrow => (h.list_map row (hS hrow)).symm)
    (h.injOn_of_subset hS)).symm

/-- Used rows are stable for slots when they are for ideals. -/
theorem stable_iff (h : table.Represents ideals) (hS : S ⊆ table.usedSet) :
    Rows.Stable table.list S ↔ Rows.Stable ideals S := by
  rw [← Rows.stable_rename (fun row hrow => (h.list_map row (hS hrow)).symm)
    (h.injOn_of_subset hS)]
  exact Rows.stable_rename (fun row _ => rfl) (Option.some_injective Ideal).injOn

/-- The core of used rows is the same for slots and ideals. -/
theorem core_eq (h : table.Represents ideals) (hS : S ⊆ table.usedSet) :
    Rows.core table.list S = Rows.core ideals S := by
  rw [← Rows.core_rename (fun row hrow => (h.list_map row (hS hrow)).symm) (h.injOn_of_subset hS)]
  exact Rows.core_rename (fun row _ => rfl) (Option.some_injective Ideal).injOn

end

/-- The excess of a table is that of the rows of ideals it represents. -/
theorem excess_eq (h : table.Represents ideals) :
    table.excess = Rows.excess ideals table.usedSet := by
  rw [h.consistent.excess_eq, h.excess_list_eq (Finset.Subset.refl _)]

theorem liveIdeals_eq (h : table.Represents ideals) :
    table.liveIdeals = (Rows.referenced ideals table.usedSet).card := by
  have hrows := h.consistent.liveRows_eq
  have hexcess := h.excess_eq
  simp only [excess, Rows.excess] at hexcess
  omega

/-- What deletions leave of a table still represents the rows that are left. -/
theorem remainder {after : Incidence} (h : table.Represents ideals)
    (hremainder : Remainder table after) : after.Represents ideals := by
  have hideal : after.roster.ideal? = table.roster.ideal? := by
    funext slot
    rw [Roster.ideal?, hremainder.ideals_eq, Roster.ideal?]
  refine ⟨hremainder.consistent, ⟨?_, ?_⟩, ?_⟩
  · rw [hremainder.values_size_eq, Roster.size, hremainder.ideals_eq]
    exact h.wellFormed.values_size
  · intro ideal slot
    rw [hideal, Roster.slot?, hremainder.slots_eq]
    exact h.wellFormed.slot_iff ideal slot
  · intro row hrow
    rw [hideal, hremainder.list_eq row hrow]
    exact h.list_map row (hremainder.usedSet_subset hrow)

end Represents

end SieveFilter.Incidence
