import SieveFilter.Proofs.Arena.Storage
import SieveFilter.Proofs.Incidence.Representation
import SieveFilter.Proofs.Support.Runs

/-!
# Registration of rows

Rows are registered in increasing order.  The invariant of a loading says what the table holds once the rows
below some number were registered: the used rows among them hold the slots of their ideals, no other row has
a list, and the counts agree with the lists.  Registering the next row keeps the invariant, because a new
list disturbs neither the lists stored before nor the slots given before.
-/

namespace SieveFilter.Incidence

open Roster (Learned)

/-! ## Counting references -/

/-- A table after references were counted, one for each occurrence of a slot in `slots`. -/
structure Added (before : Incidence) (slots : List ℕ) (after : Incidence) : Prop where
  used_eq : after.used = before.used
  lists_eq : after.lists = before.lists
  arena_eq : after.arena = before.arena
  liveRows_eq : after.liveRows = before.liveRows
  ideals_eq : after.roster.ideals = before.roster.ideals
  slots_eq : after.roster.slots = before.roster.slots
  phase_eq : after.roster.phase = before.roster.phase
  values_size_eq : after.roster.values.size = before.roster.values.size
  count_eq : ∀ slot, after.count slot = before.count slot + slots.count slot
  liveIdeals_eq : after.liveIdeals = after.roster.liveSlots.card

/-- The number of live slots stays right when a slot gains a reference. -/
theorem liveIdeals_addReference {table : Incidence} {slot : ℕ}
    (hlive : table.liveIdeals = table.roster.liveSlots.card)
    (hslot : slot < table.roster.values.size) (hnonneg : 0 ≤ table.count slot) :
    (table.addReference slot).liveIdeals = (table.addReference slot).roster.liveSlots.card := by
  have hvalue : (table.roster.increment slot).value slot = table.roster.value slot + 1 :=
    Roster.value_adjust_self hslot _
  simp only [count] at hnonneg
  simp only [addReference, hvalue, beq_iff_eq, Roster.liveSlots_increment hslot hnonneg]
  by_cases hzero : table.roster.value slot = 0
  · have hnew : slot ∉ table.roster.liveSlots := by
      rw [Roster.mem_liveSlots]
      omega
    rw [Finset.card_insert_of_notMem hnew, hlive]
    simp [hzero]
  · have hold : slot ∈ table.roster.liveSlots := Roster.mem_liveSlots.mpr (by omega)
    rw [Finset.insert_eq_of_mem hold, hlive, if_neg (by omega)]

theorem count_addReference {table : Incidence} {slot : ℕ} (hslot : slot < table.roster.values.size)
    (other : ℕ) :
    (table.addReference slot).count other =
      table.count other + if other = slot then 1 else 0 := by
  simp only [count, addReference, Roster.increment, Roster.value_adjust, hslot, and_true]
  split
  · next heq => rw [heq]
  · rw [Int.add_zero]

/-- Counting references to slots that exist adds one for each occurrence. -/
theorem added_foldl (slots : List ℕ) {table : Incidence}
    (hlive : table.liveIdeals = table.roster.liveSlots.card)
    (hslots : ∀ slot ∈ slots, slot < table.roster.values.size)
    (hnonneg : ∀ slot, 0 ≤ table.count slot) :
    Added table slots (slots.foldl addReference table) := by
  induction slots generalizing table with
  | nil => exact ⟨rfl, rfl, rfl, rfl, rfl, rfl, rfl, rfl, by simp, hlive⟩
  | cons slot rest ih =>
    have hslot : slot < table.roster.values.size := hslots slot List.mem_cons_self
    have hsize : (table.addReference slot).roster.values.size = table.roster.values.size :=
      Roster.adjust_values_size _ _ _
    have hadded : Added (table.addReference slot) rest
        (rest.foldl addReference (table.addReference slot)) := ih
      (liveIdeals_addReference hlive hslot (hnonneg slot))
      (fun other hother => hsize ▸ hslots other (List.mem_cons_of_mem slot hother))
      (fun other => by
        have hother := hnonneg other
        rw [count_addReference hslot]
        split <;> omega)
    refine ⟨hadded.used_eq, hadded.lists_eq, hadded.arena_eq, hadded.liveRows_eq,
      hadded.ideals_eq, hadded.slots_eq, hadded.phase_eq, hadded.values_size_eq.trans hsize, ?_,
      hadded.liveIdeals_eq⟩
    intro other
    rw [List.foldl_cons, hadded.count_eq, count_addReference hslot, List.count_cons]
    by_cases heq : other = slot
    · simp only [heq, beq_self_eq_true, if_true]
      omega
    · simp only [heq, Ne.symm heq, beq_iff_eq, if_false]
      omega

/-! ## The invariant of a loading -/

/-- `table` is left of `start` once the rows below `n` were registered, each used one with its ideals. -/
structure Loaded (ideals : ℕ → List Ideal) (start : Incidence) (n : ℕ) (table : Incidence) :
    Prop where
  used_eq : table.used = start.used
  liveRows_eq : table.liveRows = start.liveRows
  capacity_eq : table.arena.capacity = start.arena.capacity
  phase_eq : table.roster.phase = start.roster.phase
  lists_size : table.lists.size = table.size
  wellFormed : table.roster.WellFormed
  known_subset : table.roster.known ⊆ Rows.referenced ideals (Finset.range n)
  unlisted : ∀ row, row ∉ table.usedSet ∨ n ≤ row → table.lists.getD row none = none
  held : ∀ row ∈ table.usedSet, row < n → ∃ handle slots,
    table.lists.getD row none = some handle ∧ table.arena.Holds handle slots ∧
      slots.map table.roster.ideal? = (ideals row).map some
  count_eq : ∀ slot, table.count slot = Rows.references table.list table.usedSet slot
  liveIdeals_eq : table.liveIdeals = table.roster.liveSlots.card

/-- No row of the table has a list, and its roster has no slots. -/
structure Vacant (table : Incidence) : Prop where
  lists_size : table.lists.size = table.size
  unlisted : ∀ row, table.lists.getD row none = none
  wellFormed : table.roster.WellFormed
  roster_size : table.roster.size = 0

/-- A table that is ready to be loaded: no row has a list, and the roster is empty. -/
structure Ready (table : Incidence) : Prop where
  lists_size : table.lists.size = table.size
  unlisted : ∀ row, table.lists.getD row none = none
  wellFormed : table.roster.WellFormed
  roster_size : table.roster.size = 0
  liveRows_eq : table.liveRows = table.usedSet.card

theorem Ready.vacant {table : Incidence} (h : table.Ready) : table.Vacant :=
  ⟨h.lists_size, h.unlisted, h.wellFormed, h.roster_size⟩

theorem usedSet_new (rows blockCapacity : ℕ) :
    (new rows blockCapacity).usedSet = Finset.range rows := by
  ext row
  rw [mem_usedSet, Finset.mem_range, isUsed, new, Array.getD_eq_getD_getElem?,
    Array.getElem?_replicate]
  by_cases hrow : row < rows
  · simp [hrow]
  · simp [hrow]

theorem ready_new (rows blockCapacity : ℕ) : (new rows blockCapacity).Ready := by
  refine ⟨by simp [new, size], ?_, Roster.wellFormed_empty, rfl, ?_⟩
  · intro row
    simp only [new, Array.getD_eq_getD_getElem?, Array.getElem?_replicate]
    split <;> rfl
  · rw [usedSet_new, Finset.card_range]
    rfl

theorem list_of_unlisted {table : Incidence} {row : ℕ}
    (hrow : table.lists.getD row none = none) : table.list row = [] := by
  simp [list, hrow]

theorem list_of_held {table : Incidence} {row : ℕ} {handle : Arena.Handle} {slots : List ℕ}
    (hrow : table.lists.getD row none = some handle) (hslots : table.arena.Holds handle slots) :
    table.list row = slots := by
  simp [list, hrow, hslots.list_eq]

/-- Loading begins with no row registered. -/
theorem Vacant.loaded {table : Incidence} (h : table.Vacant) (ideals : ℕ → List Ideal) :
    Loaded ideals { table with liveIdeals := 0 } 0 { table with liveIdeals := 0 } := by
  have hvalues : table.roster.values.size = 0 := by
    rw [h.wellFormed.values_size, h.roster_size]
  have hvalue : ∀ slot, table.roster.value slot = 0 := by
    intro slot
    exact Roster.value_eq_zero_of_size_le (by omega)
  refine ⟨rfl, rfl, rfl, rfl, h.lists_size, h.wellFormed, ?_, fun row _ => h.unlisted row,
    fun row _ hlt => absurd hlt (Nat.not_lt_zero row), ?_, ?_⟩
  · intro ideal hideal
    obtain ⟨slot, hslot⟩ := Roster.mem_known.mp hideal
    have hlt := Roster.lt_size_of_ideal? hslot
    simp only [h.roster_size] at hlt
    omega
  · intro slot
    have hnone : Rows.references (list { table with liveIdeals := 0 })
        (usedSet { table with liveIdeals := 0 }) slot = 0 := by
      rw [Rows.references_eq_zero_iff, Rows.mem_referenced]
      rintro ⟨row, -, hmem⟩
      have hlist : list { table with liveIdeals := 0 } row = [] :=
        list_of_unlisted (h.unlisted row)
      rw [hlist] at hmem
      cases hmem
    rw [hnone]
    exact hvalue slot
  · rw [eq_comm, Finset.card_eq_zero, Finset.eq_empty_iff_forall_notMem]
    intro slot hslot
    have hpos := Roster.mem_liveSlots.mp hslot
    simp only [hvalue slot] at hpos
    omega

theorem Ready.loaded {table : Incidence} (h : table.Ready) (ideals : ℕ → List Ideal) :
    Loaded ideals { table with liveIdeals := 0 } 0 { table with liveIdeals := 0 } :=
  h.vacant.loaded ideals

/-- Once all rows are registered, the table represents their ideals. -/
theorem Loaded.represents {ideals : ℕ → List Ideal} {start table : Incidence} {n : ℕ}
    (h : Loaded ideals start n table) (hn : table.size ≤ n)
    (hrows : start.liveRows = start.usedSet.card) : table.Represents ideals := by
  refine ⟨⟨h.lists_size, h.wellFormed.values_size, h.count_eq, h.liveIdeals_eq, ?_⟩,
    h.wellFormed, ?_⟩
  · rw [h.liveRows_eq, hrows, usedSet, usedSet, h.used_eq]
  · intro row hrow
    have hlt := lt_size_of_mem_usedSet hrow
    obtain ⟨handle, slots, hlist, hslots, hmap⟩ := h.held row hrow (by omega)
    rw [list_of_held hlist hslots, hmap]

/-! ## Registering the next row -/

/-- The table in which a row has its list, with the references not yet counted. -/
def enlist (table : Incidence) (row : ℕ) (arena : Arena) (roster : Roster)
    (handle : Arena.Handle) : Incidence :=
  { table with lists := table.lists.setIfInBounds row (some handle), arena, roster }

/-- A row is registered when its list can be stored. -/
theorem register_of_store {table : Incidence} {row : ℕ} {ideals : List Ideal} {arena : Arena}
    {handle : Arena.Handle}
    (hstore : table.arena.store (slotsOf table.roster ideals).1 = .done arena handle) :
    table.register row ideals =
      .done ((slotsOf table.roster ideals).1.foldl addReference
        (table.enlist row arena (slotsOf table.roster ideals).2 handle)) () := by
  simp only [register, hstore]
  rfl

theorem length_slotsOf (roster : Roster) (ideals : List Ideal) :
    (slotsOf roster ideals).1.length = ideals.length := by
  induction ideals generalizing roster with
  | nil => rfl
  | cons ideal rest ih => exact congrArg (· + 1) (ih (roster.insert ideal).2)

/-- No row is registered whose list is too long for a block, but its ideals have slots then. -/
theorem register_of_capacity_lt {table : Incidence} {row : ℕ} {ideals : List Ideal}
    (hlong : table.arena.capacity < ideals.length + 1) :
    table.register row ideals =
      .fail { table with roster := (slotsOf table.roster ideals).2 }
        (.listTooLong (ideals.length + 1) table.arena.capacity) := by
  rw [← length_slotsOf table.roster ideals] at hlong ⊢
  simp only [register, Arena.store_of_capacity_lt hlong]
  rfl

theorem not_ends_register {table : Incidence} {row : ℕ} {ideals : List Ideal}
    (hlong : table.arena.capacity < ideals.length + 1) (after : Incidence) :
    ¬ (table.register row ideals).Ends after () := by
  rw [register_of_capacity_lt hlong]
  exact Run.not_ends_fail

/-- Slots that exist keep their ideals. -/
theorem map_ideal?_mono {before after : Roster} {ideals : List Ideal} {slots : List ℕ}
    (hmono : ∀ slot ideal, before.ideal? slot = some ideal → after.ideal? slot = some ideal)
    (hslots : slots.map before.ideal? = ideals.map some) :
    slots.map after.ideal? = ideals.map some := by
  rw [← hslots]
  apply List.map_congr_left
  intro slot hslot
  obtain ⟨ideal, -, hideal⟩ := Roster.exists_ideal_of_map_eq hslots hslot
  rw [hmono slot ideal hideal, hideal]

theorem list_enlist_of_ne {table : Incidence} {row other : ℕ} {arena : Arena} {roster : Roster}
    {handle : Arena.Handle} (hne : other ≠ row) :
    (table.enlist row arena roster handle).lists.getD other none = table.lists.getD other none := by
  simp [enlist, Array.getD_eq_getD_getElem?, Ne.symm hne]

theorem list_enlist_self {table : Incidence} {row : ℕ} {arena : Arena} {roster : Roster}
    {handle : Arena.Handle} (hrow : row < table.lists.size) :
    (table.enlist row arena roster handle).lists.getD row none = some handle := by
  simp [enlist, Array.getD_eq_getD_getElem?, hrow]

/-- A row that is not used needs no registration. -/
theorem Loaded.skip {ideals : ℕ → List Ideal} {start table : Incidence} {n : ℕ}
    (h : Loaded ideals start n table) (hn : n ∉ table.usedSet) :
    Loaded ideals start (n + 1) table := by
  refine ⟨h.used_eq, h.liveRows_eq, h.capacity_eq, h.phase_eq, h.lists_size, h.wellFormed,
    h.known_subset.trans (Rows.referenced_mono (Finset.range_mono (Nat.le_succ n))), ?_, ?_,
    h.count_eq, h.liveIdeals_eq⟩
  · intro row hrow
    exact h.unlisted row (hrow.imp id fun hle => by omega)
  · intro row hrow hlt
    have hne : row ≠ n := fun heq => hn (heq ▸ hrow)
    exact h.held row hrow (by omega)

/-- A row with a list that was stored, and its references counted. -/
structure Registered (table : Incidence) (row : ℕ) (ideals : List Ideal) (after : Incidence) :
    Prop where
  used_eq : after.used = table.used
  liveRows_eq : after.liveRows = table.liveRows
  capacity_eq : after.arena.capacity = table.arena.capacity
  phase_eq : after.roster.phase = table.roster.phase
  wellFormed : after.roster.WellFormed
  ideal_mono : ∀ slot ideal,
    table.roster.ideal? slot = some ideal → after.roster.ideal? slot = some ideal
  known_subset : after.roster.known ⊆ table.roster.known ∪ ideals.toFinset
  extended : Arena.Extends table.arena after.arena
  lists_size : after.lists.size = table.lists.size
  lists_of_ne : ∀ other, other ≠ row → after.lists.getD other none = table.lists.getD other none
  stored : ∃ handle slots, after.lists.getD row none = some handle ∧
    after.arena.Holds handle slots ∧ slots.map after.roster.ideal? = ideals.map some ∧
    ∀ slot, after.count slot = table.count slot + slots.count slot
  liveIdeals_eq : after.liveIdeals = after.roster.liveSlots.card

/-- Slots that stand for ideals exist. -/
theorem lt_size_of_map_eq {roster : Roster} {ideals : List Ideal} {slots : List ℕ}
    (hmap : slots.map roster.ideal? = ideals.map some) {slot : ℕ} (hslot : slot ∈ slots) :
    slot < roster.size := by
  obtain ⟨ideal, -, hideal⟩ := Roster.exists_ideal_of_map_eq hmap hslot
  exact Roster.lt_size_of_ideal? hideal

theorem registered_of_added {table after : Incidence} {row : ℕ} {ideals : List Ideal}
    {arena : Arena} {roster : Roster} {handle : Arena.Handle} {slots : List ℕ}
    (hrow : row < table.lists.size) (hlearned : Learned table.roster ideals roster)
    (hmap : slots.map roster.ideal? = ideals.map some)
    (hcapacity : arena.capacity = table.arena.capacity)
    (hextends : Arena.Extends table.arena arena) (hholds : arena.Holds handle slots)
    (hadded : Added (table.enlist row arena roster handle) slots after) :
    Registered table row ideals after := by
  have hideal : after.roster.ideal? = roster.ideal? := by
    funext slot
    rw [Roster.ideal?, hadded.ideals_eq]
    rfl
  have hknown : after.roster.known = roster.known := by
    rw [Roster.known, hadded.ideals_eq]
    rfl
  have hwellFormed : after.roster.WellFormed := by
    constructor
    · rw [hadded.values_size_eq, Roster.size, hadded.ideals_eq]
      exact hlearned.wellFormed.values_size
    · intro ideal slot
      rw [hideal, Roster.slot?, hadded.slots_eq]
      exact hlearned.wellFormed.slot_iff ideal slot
  refine ⟨hadded.used_eq, hadded.liveRows_eq, ?_, ?_, hwellFormed, ?_, ?_, ?_, ?_, ?_, ?_,
    hadded.liveIdeals_eq⟩
  · rw [hadded.arena_eq]
    exact hcapacity
  · rw [hadded.phase_eq]
    exact hlearned.phase_eq
  · rw [hideal]
    exact hlearned.ideal_mono
  · rw [hknown]
    exact hlearned.known_subset
  · rw [hadded.arena_eq]
    exact hextends
  · rw [hadded.lists_eq]
    exact Array.size_setIfInBounds
  · intro other hne
    rw [hadded.lists_eq, list_enlist_of_ne hne]
  · refine ⟨handle, slots, ?_, ?_, ?_, ?_⟩
    · rw [hadded.lists_eq, list_enlist_self hrow]
    · rw [hadded.arena_eq]
      exact hholds
    · rw [hideal, hmap]
    · intro slot
      rw [hadded.count_eq]
      exact congrArg (· + (slots.count slot : ℤ)) (hlearned.value_eq slot)

/-- A list that a block can hold is stored for its row, and no list stored before is disturbed. -/
theorem exists_enlist {table : Incidence} (row : ℕ) (ideals : List Ideal)
    (hwellFormed : table.roster.WellFormed) (hshort : ideals.length + 1 ≤ table.arena.capacity)
    (hlaid : table.arena.capacity ≤ Arena.maxCapacity)
    (hfew : (table.roster.known ∪ ideals.toFinset).card ≤ Arena.sentinel) :
    ∃ arena handle,
      table.register row ideals =
        .done ((slotsOf table.roster ideals).1.foldl addReference
          (table.enlist row arena (slotsOf table.roster ideals).2 handle)) () ∧
        arena.capacity = table.arena.capacity ∧ Arena.Extends table.arena arena ∧
        arena.Holds handle (slotsOf table.roster ideals).1 := by
  obtain ⟨hlearned, hmap⟩ := learned_slotsOf hwellFormed ideals
  have hplain : Arena.sentinel ∉ (slotsOf table.roster ideals).1 := by
    intro hsentinel
    have hlt := lt_size_of_map_eq hmap hsentinel
    have hknown := Finset.card_le_card hlearned.known_subset
    rw [hlearned.wellFormed.card_known] at hknown
    omega
  have hlength : (slotsOf table.roster ideals).1.length = ideals.length := by
    simpa using congrArg List.length hmap
  obtain ⟨arena, handle, hstore, hcapacity, hextends, hholds⟩ :=
    Arena.store_of_le_capacity table.arena (slotsOf table.roster ideals).1 (by omega) hlaid hplain
  exact ⟨arena, handle, register_of_store hstore, hcapacity, hextends, hholds⟩

/-- A row whose list a block can hold is registered. -/
theorem registered_register {table : Incidence} (row : ℕ) (ideals : List Ideal)
    (hwellFormed : table.roster.WellFormed) (hrow : row < table.lists.size)
    (hlive : table.liveIdeals = table.roster.liveSlots.card)
    (hnonneg : ∀ slot, 0 ≤ table.count slot)
    (hshort : ideals.length + 1 ≤ table.arena.capacity)
    (hlaid : table.arena.capacity ≤ Arena.maxCapacity)
    (hfew : (table.roster.known ∪ ideals.toFinset).card ≤ Arena.sentinel) :
    ∃ after, (table.register row ideals).Ends after () ∧ Registered table row ideals after := by
  obtain ⟨arena, handle, hregister, hcapacity, hextends, hholds⟩ :=
    exists_enlist row ideals hwellFormed hshort hlaid hfew
  obtain ⟨hlearned, hmap⟩ := learned_slotsOf hwellFormed ideals
  generalize (slotsOf table.roster ideals).1 = slots at hregister hholds hmap
  generalize (slotsOf table.roster ideals).2 = roster at hregister hlearned hmap
  have hadded : Added (table.enlist row arena roster handle) slots
      (slots.foldl addReference (table.enlist row arena roster handle)) := by
    apply added_foldl
    · exact hlive.trans (congrArg Finset.card hlearned.liveSlots_eq.symm)
    · intro slot hslot
      exact hlearned.wellFormed.values_size ▸ lt_size_of_map_eq hmap hslot
    · intro slot
      exact (hnonneg slot).trans_eq (hlearned.value_eq slot).symm
  refine ⟨slots.foldl addReference (table.enlist row arena roster handle), ?_,
    registered_of_added hrow hlearned hmap hcapacity hextends hholds hadded⟩
  rw [hregister]
  exact ⟨rfl, rfl⟩

/-! ### The other rows -/

/-- Where a row has a handle, a list is stored. -/
def Stored (table : Incidence) : Prop :=
  ∀ row handle, table.lists.getD row none = some handle → ∃ slots, table.arena.Holds handle slots

/-- A row that keeps its handle keeps its list while blocks only grow. -/
theorem list_of_extends {table after : Incidence} (hstored : table.Stored)
    (hextends : Arena.Extends table.arena after.arena) {row : ℕ}
    (hsame : after.lists.getD row none = table.lists.getD row none) :
    after.list row = table.list row := by
  cases hlist : table.lists.getD row none with
  | none => rw [list_of_unlisted hlist, list_of_unlisted (hsame.trans hlist)]
  | some handle =>
    obtain ⟨slots, hslots⟩ := hstored row handle hlist
    rw [list_of_held hlist hslots, list_of_held (hsame.trans hlist) (hslots.mono hextends)]

namespace Registered

variable {table after : Incidence} {row : ℕ} {ideals : List Ideal}

theorem usedSet_eq (h : Registered table row ideals after) : after.usedSet = table.usedSet := by
  rw [usedSet, usedSet, h.used_eq]

theorem stored_lists (h : Registered table row ideals after) (hstored : table.Stored) :
    after.Stored := by
  intro other handle hother
  by_cases heq : other = row
  · obtain ⟨handle', slots, hlist, hslots, -, -⟩ := h.stored
    rw [heq, hlist, Option.some.injEq] at hother
    exact ⟨slots, hother ▸ hslots⟩
  · rw [h.lists_of_ne other heq] at hother
    obtain ⟨slots, hslots⟩ := hstored other handle hother
    exact ⟨slots, hslots.mono h.extended⟩

/-- The other rows keep their lists. -/
theorem list_of_ne (h : Registered table row ideals after) (hstored : table.Stored) {other : ℕ}
    (hne : other ≠ row) : after.list other = table.list other :=
  list_of_extends hstored h.extended (h.lists_of_ne other hne)

/-- The counts agree with the lists again, once a used row without a list has got one. -/
theorem count_eq (h : Registered table row ideals after) (hstored : table.Stored)
    (hrow : row ∈ table.usedSet) (hnew : table.lists.getD row none = none)
    (hcount : ∀ slot, table.count slot = Rows.references table.list table.usedSet slot)
    (slot : ℕ) : after.count slot = Rows.references after.list after.usedSet slot := by
  obtain ⟨handle, slots, hlist, hslots, -, hadded⟩ := h.stored
  have hothers : ∀ other ∈ table.usedSet.erase row, after.list other = table.list other :=
    fun other hother => h.list_of_ne hstored (Finset.ne_of_mem_erase hother)
  have hbefore := Rows.references_erase table.list slot hrow
  have hafter := Rows.references_erase after.list slot hrow
  rw [list_of_unlisted hnew, List.count_nil] at hbefore
  rw [list_of_held hlist hslots, Rows.references_congr hothers] at hafter
  rw [h.usedSet_eq, hadded, hcount]
  omega

end Registered

/-- While a table is loaded, only the used rows below the next one have a list. -/
theorem Loaded.stored {ideals : ℕ → List Ideal} {start table : Incidence} {n : ℕ}
    (h : Loaded ideals start n table) : table.Stored := by
  intro row handle hlist
  by_cases hlisted : row ∈ table.usedSet ∧ row < n
  · obtain ⟨handle', slots, hlist', hslots, -⟩ := h.held row hlisted.1 hlisted.2
    rw [hlist, Option.some.injEq] at hlist'
    exact ⟨slots, hlist' ▸ hslots⟩
  · have hnone := h.unlisted row (by rwa [← Nat.not_lt, ← not_and_or])
    rw [hlist] at hnone
    cases hnone

/-- The registration of the next row keeps the invariant. -/
theorem Loaded.registered {ideals : ℕ → List Ideal} {start table after : Incidence} {n : ℕ}
    (h : Loaded ideals start n table) (hn : n ∈ table.usedSet)
    (hregistered : Registered table n (ideals n) after) :
    Loaded ideals start (n + 1) after := by
  obtain ⟨handle, slots, hlist, hholds, hmap, -⟩ := hregistered.stored
  have hused := hregistered.usedSet_eq
  refine ⟨hregistered.used_eq.trans h.used_eq, hregistered.liveRows_eq.trans h.liveRows_eq,
    hregistered.capacity_eq.trans h.capacity_eq, hregistered.phase_eq.trans h.phase_eq, ?_,
    hregistered.wellFormed, ?_, ?_, ?_, ?_, hregistered.liveIdeals_eq⟩
  · rw [hregistered.lists_size, h.lists_size, size, size, hregistered.used_eq]
  · intro ideal hideal
    rcases Finset.mem_union.mp (hregistered.known_subset hideal) with hknown | hnew
    · exact Rows.referenced_mono (Finset.range_mono (Nat.le_succ n)) (h.known_subset hknown)
    · exact Rows.mem_referenced.mpr
        ⟨n, Finset.self_mem_range_succ n, List.mem_toFinset.mp hnew⟩
  · intro row hrow
    have hne : row ≠ n := by
      rcases hrow with hrow | hle
      · rintro rfl
        exact hrow (hused ▸ hn)
      · omega
    rw [hregistered.lists_of_ne row hne]
    exact h.unlisted row (hrow.imp (fun hrow => hused ▸ hrow) fun hle => by omega)
  · intro row hrow hlt
    rw [hused] at hrow
    by_cases heq : row = n
    · subst heq
      exact ⟨handle, slots, hlist, hholds, hmap⟩
    · obtain ⟨handle, slots, hlist, hholds, hmap⟩ := h.held row hrow (by omega)
      refine ⟨handle, slots, ?_, hholds.mono hregistered.extended,
        map_ideal?_mono hregistered.ideal_mono hmap⟩
      rw [hregistered.lists_of_ne row heq, hlist]
  · exact hregistered.count_eq h.stored hn (h.unlisted n (.inr (Nat.le_refl n))) h.count_eq

end SieveFilter.Incidence
