import SieveFilter.Proofs.Incidence.Contents
import SieveFilter.Proofs.Incidence.Failing

/-!
# Items that offend

The first item of a stream that offends decides what a loading fails with, and nothing after it matters.  An
item offends by being a fault, by having no row, by being unreadable, or by having more ideals than a block
can hold, and the first of these that holds is the cause.  Whatever the failure is, the table is left with the
lists of the used rows before that item and with the counts that belong to these lists.
-/

namespace SieveFilter.Incidence

open Roster (Learned)

/-- Why an item cannot be loaded as a row of a table, if it cannot. -/
def offence? (bounds : Bounds) (table : Incidence) (row : ℕ) : Event → Option Failure
  | .opened _ => none
  | .fault cause => some (.fault cause)
  | .line text =>
    if table.size ≤ row then some (.rowCount table.size (row + 1))
    else if table.isUsed row then
      match Relation.ofLine text with
      | .error cause => some (.malformed row text cause)
      | .ok relation =>
        let needed := (relation.forMatrix.idealsAbove bounds).length + 1
        if table.arena.capacity < needed then some (.listTooLong needed table.arena.capacity) else none
    else none

/-- The offence of the item of a row, if there is an item for it and that item offends. -/
def offenceAt? (bounds : Bounds) (table : Incidence) (items : List Event) (row : ℕ) : Option Failure :=
  items[row]?.bind (offence? bounds table row)

/-- None of the first `n` items offends. -/
def Clear (bounds : Bounds) (table : Incidence) (items : List Event) (n : ℕ) : Prop :=
  ∀ row < n, offenceAt? bounds table items row = none

instance (bounds : Bounds) (table : Incidence) (items : List Event) (n : ℕ) :
    Decidable (Clear bounds table items n) :=
  inferInstanceAs (Decidable (∀ row < n, offenceAt? bounds table items row = none))

/-- The item of a row offends, and none before it does. -/
structure FirstOffence (bounds : Bounds) (table : Incidence) (items : List Event) (row : ℕ) (cause : Failure) :
    Prop where
  offends : offenceAt? bounds table items row = some cause
  clear : Clear bounds table items row

/-- What a loading that fails at a row leaves of a table. -/
structure Stopped (ideals : ℕ → List Ideal) (table : Incidence) (row : ℕ) (after : Incidence) : Prop where
  used_eq : after.used = table.used
  liveRows_eq : after.liveRows = table.liveRows
  listed_iff : ∀ other, (after.lists.getD other none).isSome ↔ other ∈ table.usedSet ∧ other < row
  list_map : ∀ other ∈ table.usedSet, other < row →
    (after.list other).map after.roster.ideal? = (ideals other).map some
  count_eq : ∀ slot, after.count slot = Rows.references after.list table.usedSet slot
  liveIdeals_eq : after.liveIdeals = (Rows.referenced after.list table.usedSet).card
  /-- Ideals have slots only if they belong to a used row before the one that failed, or to that row. -/
  known : ∀ ideal slot, after.roster.slot? ideal = some slot →
    ∃ other ∈ table.usedSet, other ≤ row ∧ ideal ∈ ideals other
  /-- Ideals that only the row that failed has met are counted nowhere. -/
  new_count : ∀ ideal slot, after.roster.slot? ideal = some slot →
    (∀ other ∈ table.usedSet, other < row → ideal ∉ ideals other) → after.count slot = 0

variable {bounds : Bounds} {table start after : Incidence} {items : List Event} {lines : List String}
  {n row : ℕ} {item : Event} {cause : Failure} {loading : Loading}

/-! ## The first offence -/

/-- Only the used rows and the capacity of the blocks decide whether an item offends. -/
theorem offence?_congr (hused : table.used = start.used)
    (hcapacity : table.arena.capacity = start.arena.capacity) :
    offence? bounds table = offence? bounds start := by
  obtain ⟨used, lists, ⟨capacity, blocks⟩, roster, liveRows, liveIdeals⟩ := table
  obtain ⟨used', lists', ⟨capacity', blocks'⟩, roster', liveRows', liveIdeals'⟩ := start
  obtain rfl : used = used' := hused
  obtain rfl : capacity = capacity' := hcapacity
  rfl

theorem offenceAt?_eq (hitem : items[n]? = some item) :
    offenceAt? bounds table items n = offence? bounds table n item := by
  rw [offenceAt?, hitem, Option.bind_some]

theorem FirstOffence.not_clear (h : FirstOffence bounds table items row cause) (hlt : row < n) :
    ¬ Clear bounds table items n := by
  intro hclear
  have hnone := hclear row hlt
  rw [h.offends] at hnone
  cases hnone

theorem FirstOffence.lt_length (h : FirstOffence bounds table items row cause) : row < items.length := by
  obtain ⟨item, hitem, -⟩ := Option.bind_eq_some_iff.mp h.offends
  exact (List.getElem?_eq_some_iff.mp hitem).1

/-- There is at most one first offence. -/
theorem FirstOffence.unique {row' : ℕ} {cause' : Failure} (h : FirstOffence bounds table items row cause)
    (h' : FirstOffence bounds table items row' cause') : row = row' ∧ cause = cause' := by
  have hrow : row = row' := by
    rcases Nat.lt_trichotomy row row' with hlt | heq | hlt
    · exact absurd h'.clear (h.not_clear hlt)
    · exact heq
    · exact absurd h.clear (h'.not_clear hlt)
  subst hrow
  exact ⟨rfl, Option.some.inj (h.offends.symm.trans h'.offends)⟩

theorem Clear.succ (h : Clear bounds table items n) (hnone : offenceAt? bounds table items n = none) :
    Clear bounds table items (n + 1) := by
  intro row hrow
  rcases Nat.lt_or_eq_of_le (Nat.le_of_lt_succ hrow) with hlt | rfl
  · exact h row hlt
  · exact hnone

/-- While a table is loaded, its lists hold slots of ideals of the rows that were met. -/
theorem Loaded.exists_ideal {ideals : ℕ → List Ideal} (h : Loaded ideals start n table)
    (hrow : row ∈ table.usedSet) {slot : ℕ} (hslot : slot ∈ table.list row) :
    row < n ∧ ∃ ideal ∈ ideals row, table.roster.ideal? slot = some ideal := by
  by_cases hlt : row < n
  swap
  · rw [list_of_unlisted (h.unlisted row (.inr (Nat.not_lt.mp hlt)))] at hslot
    cases hslot
  · obtain ⟨handle, slots, hlist, hholds, hmap⟩ := h.held row hrow hlt
    rw [list_of_held hlist hholds] at hslot
    exact ⟨hlt, Roster.exists_ideal_of_map_eq hmap hslot⟩

/-- What a failure leaves is told from the rows of the table that the loading began with. -/
theorem Stopped.of_rows {ideals : ℕ → List Ideal} (h : Stopped ideals start row after)
    (hused : start.used = table.used) (hliveRows : start.liveRows = table.liveRows) :
    Stopped ideals table row after := by
  have hset : start.usedSet = table.usedSet := by rw [usedSet, usedSet, hused]
  exact ⟨h.used_eq.trans hused, h.liveRows_eq.trans hliveRows, hset ▸ h.listed_iff, hset ▸ h.list_map,
    hset ▸ h.count_eq, hset ▸ h.liveIdeals_eq, hset ▸ h.known, hset ▸ h.new_count⟩

/-! ## Taking one item -/

namespace Loading

/-- An item that offends is not taken. -/
theorem outcome_take_of_offence
    (hoffence : offence? bounds loading.table loading.summary.scanned item = some cause) :
    (loading.take bounds item).outcome = .error cause := by
  obtain ⟨table, scanned, registered, free⟩ := loading
  cases item with
  | opened path => cases hoffence
  | fault fault => exact congrArg Except.error (Option.some.inj hoffence)
  | line text =>
    simp only [offence?] at hoffence
    simp only [take, takeLine]
    by_cases hout : table.size ≤ scanned
    · rw [if_pos hout] at hoffence ⊢
      exact congrArg Except.error (Option.some.inj hoffence)
    rw [if_neg hout] at hoffence ⊢
    by_cases hused : table.isUsed scanned = true
    swap
    · rw [if_neg hused] at hoffence
      cases hoffence
    rw [if_pos hused] at hoffence ⊢
    cases hread : Relation.ofLine text with
    | error error =>
      simp only [hread] at hoffence
      simp only [register, hread]
      exact congrArg Except.error (Option.some.inj hoffence)
    | ok relation =>
      simp only [hread] at hoffence
      split at hoffence
      next hlong =>
        simp only [register, hread, register_of_capacity_lt hlong]
        exact congrArg Except.error (Option.some.inj hoffence)
      next => cases hoffence

/-- An item that is not taken offends. -/
theorem offence_of_fails_take {stopped : Loading} (hlaid : loading.table.arena.capacity ≤ Arena.maxCapacity)
    (hfails : (loading.take bounds item).Fails stopped cause) :
    offence? bounds loading.table loading.summary.scanned item = some cause := by
  cases item with
  | opened path => exact absurd hfails Run.not_fails_done
  | fault fault =>
    obtain ⟨-, rfl⟩ := Run.fails_fail.mp hfails
    rfl
  | line text =>
    rcases fails_takeLine hfails with ⟨hout, -, rfl⟩ | ⟨hused, hregister⟩
    · exact if_pos hout
    have hin : loading.summary.scanned < loading.table.size := lt_size_of_mem_usedSet (mem_usedSet.mpr hused)
    simp only [offence?, if_neg (Nat.not_le.mpr hin), if_pos hused]
    rcases fails_register hregister with ⟨error, hread, -, rfl⟩ | ⟨relation, hread, hstore⟩
    · rw [hread]
    · rw [hread]
      rcases (Incidence.fails_register hstore).2 with ⟨hlong, rfl⟩ | ⟨hlarge, -⟩
      · exact if_pos hlong
      · exact absurd hlaid (Nat.not_le.mpr hlarge)

namespace Filled

/-- What the rows below `n` have filled is what a failure at row `n` leaves, with slots for the ideals of that
row at most. -/
theorem stopped (h : Filled lines bounds start n loading) {new : List Ideal} {roster : Roster}
    (hlearned : Learned loading.table.roster new roster)
    (hnew : ∀ ideal ∈ new, n ∈ start.usedSet ∧ ideal ∈ admitted lines bounds n) :
    Stopped (admitted lines bounds) start n { loading.table with roster } := by
  have hloaded := h.loaded
  have hused : loading.table.usedSet = start.usedSet := by rw [usedSet, usedSet, hloaded.used_eq]
  have hcount (slot : ℕ) : count { loading.table with roster } slot =
      Rows.references loading.table.list start.usedSet slot := by
    rw [← hused, ← hloaded.count_eq slot]
    exact hlearned.value_eq slot
  refine ⟨hloaded.used_eq, hloaded.liveRows_eq, ?_, ?_, hcount, ?_, ?_, ?_⟩
  · intro other
    rw [← hused]
    by_cases hlisted : other ∈ loading.table.usedSet ∧ other < n
    · obtain ⟨handle, slots, hlist, -⟩ := hloaded.held other hlisted.1 hlisted.2
      simp [hlist, hlisted]
    · have hnone := hloaded.unlisted other (by rwa [← Nat.not_lt, ← not_and_or])
      simp [hnone, hlisted]
  · intro other hother hlt
    obtain ⟨handle, slots, hlist, hholds, hmap⟩ := hloaded.held other (hused ▸ hother) hlt
    have hslots : list { loading.table with roster } other = slots := list_of_held hlist hholds
    rw [hslots]
    exact map_ideal?_mono hlearned.ideal_mono hmap
  · rw [← hused]
    exact hloaded.liveIdeals_eq.trans (congrArg Finset.card (liveSlots_eq_referenced hloaded.count_eq))
  · intro ideal slot hslot
    have hknown : ideal ∈ roster.known :=
      Roster.mem_known.mpr ⟨slot, (hlearned.wellFormed.slot_iff ideal slot).mp hslot⟩
    rcases Finset.mem_union.mp (hlearned.known_subset hknown) with hold | hideal
    · obtain ⟨other, hother, hlt, hmem⟩ := h.exists_row_of_known hold
      exact ⟨other, hother, hlt.le, hmem⟩
    · obtain ⟨hrow, hmem⟩ := hnew ideal (List.mem_toFinset.mp hideal)
      exact ⟨n, hrow, Nat.le_refl n, hmem⟩
  · intro ideal slot hslot hnone
    rw [hcount, Int.natCast_eq_zero, Rows.references_eq_zero_iff, Rows.mem_referenced]
    rintro ⟨other, hother, hmem⟩
    obtain ⟨hlt, key, hkey, hkeySlot⟩ := hloaded.exists_ideal (hused ▸ hother) hmem
    have hslotIdeal := (hlearned.wellFormed.slot_iff ideal slot).mp hslot
    rw [hlearned.ideal_mono slot key hkeySlot, Option.some.injEq] at hslotIdeal
    exact hnone other hother hlt (hslotIdeal ▸ hkey)

theorem stopped_self (h : Filled lines bounds start n loading) :
    Stopped (admitted lines bounds) start n loading.table :=
  h.stopped (Learned.refl h.loaded.wellFormed) fun _ hideal => absurd hideal List.not_mem_nil

/-- What an item that is not taken leaves behind. -/
theorem stopped_of_fails (h : Filled lines bounds start n loading) {stopped : Loading}
    (hline : ∀ text, item = .line text → lines[n]? = some text)
    (hfails : (loading.take bounds item).Fails stopped cause) :
    Stopped (admitted lines bounds) start n stopped.table := by
  have hsame := h.stopped_self
  cases item with
  | opened path => exact absurd hfails Run.not_fails_done
  | fault fault =>
    obtain ⟨rfl, -⟩ := Run.fails_fail.mp hfails
    exact hsame
  | line text =>
    rcases fails_takeLine hfails with ⟨-, rfl, -⟩ | ⟨hused, hregister⟩
    · exact hsame
    rcases fails_register hregister with ⟨error, -, rfl, -⟩ | ⟨relation, hread, hstore⟩
    · exact hsame
    rw [(Incidence.fails_register hstore).1]
    refine h.stopped (learned_slotsOf h.loaded.wellFormed _).1 ?_
    intro ideal hideal
    rw [idealsAbove_eq_admitted (hline text rfl) hread] at hideal
    rw [h.scanned_eq, isUsed, h.loaded.used_eq] at hused
    exact ⟨mem_usedSet.mpr hused, hideal⟩

/-- The cause of a failure is decided by the table that the loading began with. -/
theorem offence?_eq (h : Filled lines bounds start n loading) (item : Event) :
    offence? bounds loading.table loading.summary.scanned item = offence? bounds start n item := by
  rw [h.scanned_eq, offence?_congr h.loaded.used_eq h.loaded.capacity_eq]

/-- An item that offends stops the loading at its row. -/
theorem fails_take (h : Filled lines bounds start n loading)
    (hline : ∀ text, item = .line text → lines[n]? = some text)
    (hoffence : offence? bounds start n item = some cause) :
    ∃ stopped, (loading.take bounds item).Fails stopped cause ∧
      Stopped (admitted lines bounds) start n stopped.table := by
  rw [← h.offence?_eq] at hoffence
  obtain ⟨stopped, hfails⟩ := Run.exists_fails (outcome_take_of_offence hoffence)
  exact ⟨stopped, hfails, h.stopped_of_fails hline hfails⟩

/-- A line that does not offend fills in its row. -/
theorem ends_take (h : Filled lines bounds start n loading) {text : String} (hline : lines[n]? = some text)
    (hnone : offence? bounds start n (.line text) = none) (hlaid : start.arena.capacity ≤ Arena.maxCapacity)
    (hfew : (Rows.referenced (admitted lines bounds) start.usedSet).card ≤ Arena.sentinel) :
    ∃ later, (loading.take bounds (.line text)).Ends later true ∧
      Filled lines bounds start (n + 1) later := by
  rcases Run.ends_or_fails (loading.take bounds (.line text)) with ⟨more, hends⟩ | ⟨cause, hfails⟩
  · obtain ⟨rfl, -⟩ := more_of_ends_take hends
    exact ⟨_, hends, (h.takeLine hline hlaid hfew hends).2⟩
  · have hoffence := offence_of_fails_take (h.loaded.capacity_eq ▸ hlaid) hfails
    rw [h.offence?_eq, hnone] at hoffence
    cases hoffence

/-- The walk over the items that are left stops at the first that offends, and otherwise takes all of them. -/
theorem each_decided {events : List Event} (h : Filled lines bounds start n loading)
    (hn : n ≤ items.length) (hclear : Clear bounds start items n) (hitems : items.drop n = Event.items events)
    (hlines : lines.drop n = Event.leading events) (hlaid : start.arena.capacity ≤ Arena.maxCapacity)
    (hfew : (Rows.referenced (admitted lines bounds) start.usedSet).card ≤ Arena.sentinel) :
    (∃ row cause, FirstOffence bounds start items row cause ∧
      ∃ stopped, (Run.each (take bounds) loading events).Fails stopped cause ∧
        Stopped (admitted lines bounds) start row stopped.table) ∨
    (Clear bounds start items items.length ∧
      ∃ later, (Run.each (take bounds) loading events).Ends later () ∧
        Filled lines bounds start items.length later) := by
  induction events generalizing n loading with
  | nil =>
    have hend : n = items.length := le_antisymm hn (List.drop_eq_nil_iff.mp hitems)
    exact .inr ⟨hend ▸ hclear, loading, ⟨rfl, rfl⟩, hend ▸ h⟩
  | cons event rest ih =>
    cases event with
    | opened path =>
      have hfirst : (loading.take bounds (.opened path)).Ends loading true := ⟨rfl, rfl⟩
      simp only [(hfirst.each_cons_eq rest).fails_iff, (hfirst.each_cons_eq rest).ends_iff]
      exact ih h hn hclear hitems hlines
    | fault cause =>
      obtain ⟨hitem, -⟩ := next_of_drop hitems
      have hoffence : offence? bounds start n (.fault cause) = some (.fault cause) := rfl
      obtain ⟨stopped, hfails, hstopped⟩ := h.fails_take (fun text htext => by cases htext) hoffence
      exact .inl ⟨n, .fault cause, ⟨(offenceAt?_eq hitem).trans hoffence, hclear⟩, stopped,
        Run.fails_each_cons.mpr (.inl hfails), hstopped⟩
    | line text =>
      obtain ⟨hitem, hlater⟩ := next_of_drop hitems
      obtain ⟨hline, hdrop⟩ := next_of_drop hlines
      cases hoffence : offence? bounds start n (.line text) with
      | some cause =>
        obtain ⟨stopped, hfails, hstopped⟩ := h.fails_take
          (fun other hother => Event.line.inj hother ▸ hline) hoffence
        exact .inl ⟨n, cause, ⟨(offenceAt?_eq hitem).trans hoffence, hclear⟩, stopped,
          Run.fails_each_cons.mpr (.inl hfails), hstopped⟩
      | none =>
        obtain ⟨middle, hfirst, hmiddle⟩ := h.ends_take hline hoffence hlaid hfew
        have hin : n < items.length := (List.getElem?_eq_some_iff.mp hitem).1
        simp only [(hfirst.each_cons_eq rest).fails_iff, (hfirst.each_cons_eq rest).ends_iff]
        exact ih hmiddle hin (hclear.succ ((offenceAt?_eq hitem).trans hoffence)) hlater hdrop

end Filled

end Loading

/-! ## Loadings -/

/-- A row outside the table cannot be loaded, so where no item offends there are no more items than rows. -/
theorem Clear.length_le {events : List Event} (h : Clear bounds table (Event.items events) n)
    (hn : n ≤ (Event.items events).length) : n ≤ table.size := by
  by_contra hmore
  have hin : table.size < (Event.items events).length := by omega
  have hnone := h table.size (by omega)
  rw [offenceAt?_eq (List.getElem?_eq_getElem hin)] at hnone
  have hmem : (Event.items events)[table.size] ∈ Event.items events := List.getElem_mem hin
  generalize (Event.items events)[table.size] = item at hnone hmem
  cases item with
  | opened path => simp [Event.items] at hmem
  | fault cause => cases hnone
  | line text => simp [offence?] at hnone

/-- A loading fails at the first item that offends, and otherwise only its end is left to look at. -/
theorem Vacant.load_cases (h : table.Vacant) (build : Build) (bounds : Bounds) (events : List Event)
    (hlaid : table.arena.capacity ≤ Arena.maxCapacity)
    (hfew : (Rows.referenced (admitted (Event.leading events) bounds) table.usedSet).card ≤ Arena.sentinel) :
    (∃ row cause, FirstOffence bounds table (Event.items events) row cause ∧
      ∃ after, (table.load build bounds events).Fails after cause ∧
        Stopped (admitted (Event.leading events) bounds) table row after) ∨
    (Clear bounds table (Event.items events) (Event.items events).length ∧
      ∃ later : Loading, (table.load build bounds events).SameResult (later.finish.within Loading.table) ∧
        Loading.Filled (Event.leading events) bounds { table with liveIdeals := 0 }
          (Event.items events).length later) := by
  rw [load_eq_fill h.roster_size]
  rcases (Loading.filled_start h).each_decided (Nat.zero_le (Event.items events).length)
    (fun row hrow => absurd hrow (Nat.not_lt_zero row)) rfl rfl hlaid hfew with
    ⟨row, cause, hfirst, stopped, hfails, hstopped⟩ | ⟨hclear, later, hends, hfilled⟩
  · exact .inl ⟨row, cause, ⟨hfirst.offends, hfirst.clear⟩, stopped.table,
      fails_fill.mpr ⟨stopped, rfl, .inl hfails⟩, hstopped.of_rows rfl rfl⟩
  · exact .inr ⟨hclear, later, (hends.next_eq _).within _, hfilled⟩

/-- The loading of a vacant table is decided by the first item of the stream that offends: it fails with the
cause of that offence, whatever comes after it.  Where no item offends, it fails if there are fewer items than
rows, and succeeds otherwise.  Every failure leaves the used rows as they were and the lists of those before
the row that failed. -/
theorem load_decided_by_first_offence {blockCapacity : ℕ} (h : table.Vacant)
    (harena : table.arena = .new blockCapacity) (hcapacity : blockCapacity ≤ 2 ^ 32) (build : Build)
    (bounds : Bounds) (events : List Event)
    (hfew : (Rows.referenced (readIdeals (Event.leading events) bounds) table.usedSet).card < 2 ^ 31) :
    (∀ row cause, FirstOffence bounds table (Event.items events) row cause →
      ∃ after, (table.load build bounds events).Fails after cause ∧
        Stopped (readIdeals (Event.leading events) bounds) table row after) ∧
    (Clear bounds table (Event.items events) (Event.items events).length →
      ((Event.items events).length < table.size →
        ∃ after,
          (table.load build bounds events).Fails after (.rowCount table.size (Event.items events).length) ∧
            Stopped (readIdeals (Event.leading events) bounds) table (Event.items events).length after) ∧
      (table.size ≤ (Event.items events).length →
        ∃ after summary, (table.load build bounds events).Ends after summary)) := by
  have hsentinel : 2 ^ 31 ≤ Arena.sentinel := by decide
  have hmax : 2 ^ 32 ≤ Arena.maxCapacity := by decide
  have hlaid : table.arena.capacity ≤ Arena.maxCapacity := by
    rw [harena]
    exact max_le (hcapacity.trans hmax) (by decide)
  rw [readIdeals_eq_admitted] at hfew ⊢
  rcases h.load_cases build bounds events hlaid (hfew.le.trans hsentinel) with
    ⟨row, cause, hfirst, after, hfails, hstopped⟩ | ⟨hclear, later, hsame, hfilled⟩
  · constructor
    · intro row' cause' hfirst'
      obtain ⟨rfl, rfl⟩ := hfirst.unique hfirst'
      exact ⟨after, hfails, hstopped⟩
    · intro hclear
      exact absurd hclear (hfirst.not_clear hfirst.lt_length)
  · have hscanned := hfilled.scanned_eq
    have hsize : later.table.size = table.size := by
      rw [size, hfilled.loaded.used_eq]
      rfl
    refine ⟨fun row cause hfirst => absurd hclear (hfirst.not_clear hfirst.lt_length), fun _ => ⟨?_, ?_⟩⟩
    · intro hless
      have hfails : later.finish.Fails later (.rowCount table.size (Event.items events).length) := by
        rw [Loading.fails_finish, hscanned, hsize]
        exact ⟨Nat.ne_of_lt hless, rfl, rfl⟩
      exact ⟨later.table, hsame.fails_iff.mpr (Run.fails_within.mpr ⟨later, hfails, rfl⟩),
        hfilled.stopped_self.of_rows rfl rfl⟩
    · intro hall
      have hends : later.finish.Ends later later.summary := by
        rw [Loading.ends_finish, hscanned, hsize]
        exact ⟨le_antisymm (hclear.length_le (Nat.le_refl _)) hall, rfl, rfl⟩
      exact ⟨_, _, hsame.ends_iff.mpr (hends.within _)⟩

/-- Four rows of which the second is not used, with blocks for three cells. -/
def sampleNarrow : Incidence :=
  { sampleReady with arena := .new 3 }

/-- The line of the row that is not used is not read, and that of the next row has too many ideals. -/
def sampleOffending : List Event :=
  [.opened "first", .line "1,1:3:", .line "no relation", .line "4,1:3,5,7:", .fault .notText]

theorem vacant_sampleNarrow : sampleNarrow.Vacant := by
  obtain ⟨hlists, hunlisted, hwellFormed, hroster, -⟩ := ready_sampleReady
  exact ⟨hlists, hunlisted, hwellFormed, hroster⟩

/-- The list that is too long comes before the fault.  Without these two items the rows are too few. -/
theorem load_decided_by_first_offence_sample :
    (∃ after, (sampleNarrow.load .checked .none sampleOffending).Fails after (.listTooLong 4 3) ∧
      (after.lists.getD 0 none).isSome ∧ ¬ (after.lists.getD 2 none).isSome ∧
      ∀ slot, after.roster.slot? (Ideal.rational 5) = some slot → after.count slot = 0) ∧
    ∃ after, (sampleNarrow.load .checked .none (sampleOffending.take 3)).Fails after (.rowCount 4 2) := by
  constructor
  · have hfirst : FirstOffence .none sampleNarrow (Event.items sampleOffending) 2 (.listTooLong 4 3) :=
      ⟨by decide +kernel, by decide +kernel⟩
    obtain ⟨after, hfails, hstopped⟩ := (load_decided_by_first_offence vacant_sampleNarrow rfl (by decide)
      .checked .none sampleOffending (by decide +kernel)).1 2 _ hfirst
    have hnew : ∀ other ∈ sampleNarrow.usedSet, other < 2 →
        Ideal.rational 5 ∉ readIdeals (Event.leading sampleOffending) .none other := by
      decide +kernel
    refine ⟨after, hfails, (hstopped.listed_iff 0).mpr (by decide), ?_, ?_⟩
    · exact fun hlisted => absurd ((hstopped.listed_iff 2).mp hlisted).2 (Nat.lt_irrefl 2)
    · exact fun slot hslot => hstopped.new_count _ slot hslot hnew
  · obtain ⟨hless, -⟩ := (load_decided_by_first_offence vacant_sampleNarrow rfl (by decide) .checked .none
      (sampleOffending.take 3) (by decide +kernel)).2 (by decide +kernel)
    obtain ⟨after, hfails, -⟩ := hless (by decide)
    exact ⟨after, hfails⟩

end SieveFilter.Incidence
