import SieveFilter.Proofs.Incidence.Failing
import SieveFilter.Proofs.Incidence.RestrictedPass

/-!
# Upkeep of a table

A table is intact when its counts agree with its lists, its roster is well formed, and every handle leads to a
stored list.  Registrations, whether they succeed or fail, deletions, and loadings of any stream keep a table
intact, as long as the roster does not run out of slots.
-/

namespace SieveFilter.Incidence

open Roster (Learned)

/-- A table whose counts, roster and lists fit together.  If all ideals were registered as `distinct` ones,
no used row lists a slot twice. -/
structure Intact (distinct : Prop) (table : Incidence) : Prop where
  consistent : table.Consistent
  wellFormed : table.roster.WellFormed
  stored : table.Stored
  nodup : distinct → ∀ row ∈ table.usedSet, (table.list row).Nodup

/-- `after` has the used rows of `before`, and slots for at most so many more ideals. -/
structure Fills (entries : ℕ) (before after : Incidence) : Prop where
  used_eq : after.used = before.used
  capacity_eq : after.arena.capacity = before.arena.capacity
  size_le : after.roster.size ≤ before.roster.size + entries

theorem Fills.refl (table : Incidence) : Fills 0 table table :=
  ⟨rfl, rfl, Nat.le_refl _⟩

theorem Fills.trans {first second third : Incidence} {entries entries' : ℕ}
    (h : Fills entries first second) (h' : Fills entries' second third) :
    Fills (entries + entries') first third := by
  refine ⟨h'.used_eq.trans h.used_eq, h'.capacity_eq.trans h.capacity_eq, ?_⟩
  have hle := h.size_le
  have hle' := h'.size_le
  omega

variable {distinct : Prop} {table : Incidence}

/-! ## Registrations -/

/-- Slots without references disturb nothing. -/
theorem Intact.learned (h : table.Intact distinct) {ideals : List Ideal} {roster : Roster}
    (hlearned : Learned table.roster ideals roster) :
    Intact distinct { table with roster } := by
  constructor
  · refine ⟨h.consistent.lists_size, hlearned.wellFormed.values_size, ?_, ?_,
      h.consistent.liveRows_eq⟩
    · intro slot
      exact (hlearned.value_eq slot).trans (h.consistent.count_eq slot)
    · exact h.consistent.liveIdeals_eq.trans (congrArg Finset.card hlearned.liveSlots_eq.symm)
  · exact hlearned.wellFormed
  · exact h.stored
  · exact h.nodup

theorem Intact.registered (h : table.Intact distinct) {row : ℕ} (hrow : row ∈ table.usedSet)
    (hnew : table.lists.getD row none = none) {ideals : List Ideal}
    (hdistinct : distinct → ideals.Nodup) {after : Incidence}
    (hregistered : Registered table row ideals after) : after.Intact distinct := by
  have hused := hregistered.usedSet_eq
  constructor
  · refine ⟨?_, hregistered.wellFormed.values_size,
      hregistered.count_eq h.stored hrow hnew h.consistent.count_eq, hregistered.liveIdeals_eq, ?_⟩
    · rw [hregistered.lists_size, h.consistent.lists_size, size, size, hregistered.used_eq]
    · rw [hregistered.liveRows_eq, h.consistent.liveRows_eq, hused]
  · exact hregistered.wellFormed
  · exact hregistered.stored_lists h.stored
  · intro hall other hother
    by_cases heq : other = row
    · obtain ⟨handle, slots, hlist, hslots, hmap, -⟩ := hregistered.stored
      have hideals : (slots.map after.roster.ideal?).Nodup := by
        rw [hmap]
        exact (hdistinct hall).map (Option.some_injective Ideal)
      rw [heq, list_of_held hlist hslots]
      exact hideals.of_map _
    · rw [hregistered.list_of_ne h.stored heq]
      exact h.nodup hall other (hused ▸ hother)

/-- A registration keeps a table intact, whether or not it succeeds. -/
theorem Intact.register (h : table.Intact distinct) {row : ℕ} (hrow : row ∈ table.usedSet)
    (hnew : table.lists.getD row none = none) {ideals : List Ideal}
    (hdistinct : distinct → ideals.Nodup) (hlaid : table.arena.capacity ≤ Arena.maxCapacity)
    (hfew : table.roster.size + ideals.length ≤ Arena.sentinel) :
    (table.register row ideals).state.Intact distinct ∧
      Fills ideals.length table (table.register row ideals).state ∧
      ∀ other, other ≠ row →
        (table.register row ideals).state.lists.getD other none = table.lists.getD other none := by
  by_cases hshort : ideals.length + 1 ≤ table.arena.capacity
  · have hknown : (table.roster.known ∪ ideals.toFinset).card ≤ Arena.sentinel := by
      refine (Finset.card_union_le _ _).trans ?_
      rw [h.wellFormed.card_known]
      exact (Nat.add_le_add_left (List.toFinset_card_le ideals) _).trans hfew
    have hin : row < table.lists.size := h.consistent.lists_size ▸ lt_size_of_mem_usedSet hrow
    obtain ⟨after, hends, hregistered⟩ := registered_register row ideals h.wellFormed hin
      h.consistent.liveIdeals_eq h.consistent.count_nonneg hshort hlaid hknown
    rw [hends.1]
    refine ⟨h.registered hrow hnew hdistinct hregistered, ⟨hregistered.used_eq,
      hregistered.capacity_eq, ?_⟩, hregistered.lists_of_ne⟩
    exact Roster.size_le_of_known_subset h.wellFormed hregistered.wellFormed
      hregistered.known_subset
  · rcases Run.ends_or_fails (table.register row ideals) with ⟨_, hends⟩ | ⟨cause, hfails⟩
    · exact absurd hends (not_ends_register (by omega) _)
    · obtain ⟨hlearned, -⟩ := learned_slotsOf h.wellFormed ideals
      rw [(fails_register hfails).1]
      refine ⟨h.learned hlearned, ⟨rfl, rfl, ?_⟩, fun _ _ => rfl⟩
      exact Roster.size_le_of_known_subset h.wellFormed hlearned.wellFormed hlearned.known_subset

/-! ## Deletions -/

theorem Intact.delete (h : table.Intact distinct) {row : ℕ} (hrow : row ∈ table.usedSet) :
    (table.delete row).Intact distinct := by
  have hdropped := h.consistent.dropped_delete hrow
  have hideal : (table.delete row).roster.ideal? = table.roster.ideal? := by
    funext slot
    rw [Roster.ideal?, hdropped.ideals_eq]
    rfl
  constructor
  · exact h.consistent.delete hrow
  · constructor
    · exact (h.consistent.delete hrow).values_size
    · intro ideal slot
      rw [hideal, Roster.slot?, hdropped.slots_eq]
      exact h.wellFormed.slot_iff ideal slot
  · intro other handle hother
    rw [hdropped.lists_eq, Array.getD_eq_getD_getElem?, Array.getElem?_setIfInBounds] at hother
    rw [hdropped.arena_eq]
    split at hother
    · split at hother
      · cases hother
      · cases hother
    · exact h.stored other handle (by rwa [Array.getD_eq_getD_getElem?])
  · intro hall other hother
    rw [usedSet_delete] at hother
    obtain ⟨hne, hused⟩ := Finset.mem_erase.mp hother
    rw [h.consistent.list_delete_of_ne hrow hne]
    exact h.nodup hall other hused

/-- Deletions keep a table intact. -/
theorem Intact.deletes {after : Incidence} (h : table.Intact distinct)
    (hdeletes : Deletes table after) : after.Intact distinct := by
  induction hdeletes with
  | refl => exact h
  | tail _ hstep ih =>
    obtain ⟨row, hrow, rfl⟩ := hstep
    exact ih.delete hrow

/-! ## Loadings -/

theorem Ready.intact (h : table.Ready) : Intact distinct { table with liveIdeals := 0 } := by
  have hloaded := h.loaded fun _ => []
  refine ⟨⟨h.lists_size, h.wellFormed.values_size, hloaded.count_eq, hloaded.liveIdeals_eq,
    h.liveRows_eq⟩, h.wellFormed, hloaded.stored, ?_⟩
  intro _ row _
  have hempty : list { table with liveIdeals := 0 } row = [] := list_of_unlisted (h.unlisted row)
  rw [hempty]
  exact List.nodup_nil

namespace Loading

variable {loading : Loading}

/-- The ideals that an event offers for registration. -/
def offered (bounds : Bounds) (loading : Loading) : Event → ℕ
  | .line line =>
    if loading.table.isUsed loading.summary.scanned then
      match Relation.ofLine line with
      | .ok relation => (relation.forMatrix.idealsAbove bounds).length
      | .error _ => 0
    else 0
  | _ => 0

/-- The ideals that are offered for registration until the events are taken or one of them fails. -/
def entries (bounds : Bounds) (loading : Loading) : List Event → ℕ
  | [] => 0
  | event :: rest =>
    loading.offered bounds event +
      match (loading.take bounds event).outcome with
      | .ok true => (loading.take bounds event).state.entries bounds rest
      | _ => 0

/-- The invariant of a walk over any events: the rows that are still to come have no list. -/
structure Underway (distinct : Prop) (loading : Loading) : Prop where
  intact : loading.table.Intact distinct
  unlisted : ∀ row, loading.summary.scanned ≤ row → loading.table.lists.getD row none = none

/-- A line that can be read is registered, and nothing else is done with it. -/
theorem state_register (loading : Loading) (bounds : Bounds) (row : ℕ) {line : String}
    {relation : Relation} (hread : Relation.ofLine line = .ok relation) :
    (loading.register bounds row line).state.table =
        (loading.table.register row (relation.forMatrix.idealsAbove bounds)).state ∧
      (loading.register bounds row line).state.summary.scanned = loading.summary.scanned := by
  obtain ⟨table, scanned, registered, free⟩ := loading
  simp only [register, hread]
  obtain ⟨after, notices, outcome⟩ := table.register row (relation.forMatrix.idealsAbove bounds)
  cases outcome with
  | error cause => exact ⟨rfl, rfl⟩
  | ok value => exact ⟨rfl, rfl⟩

theorem Underway.skip (h : Underway distinct loading) {summary : LoadSummary}
    (hscanned : loading.summary.scanned ≤ summary.scanned) :
    Underway distinct ⟨loading.table, summary⟩ :=
  ⟨h.intact, fun row hrow => h.unlisted row (hscanned.trans hrow)⟩

theorem Underway.takeLine (h : Underway distinct loading) (bounds : Bounds) (line : String)
    (hlaid : loading.table.arena.capacity ≤ Arena.maxCapacity)
    (hfew : loading.table.roster.size + loading.offered bounds (.line line) ≤ Arena.sentinel) :
    Underway distinct (loading.takeLine bounds line).state ∧
      Fills (loading.offered bounds (.line line)) loading.table
        (loading.takeLine bounds line).state.table := by
  have hnothing : Fills (loading.offered bounds (.line line)) loading.table loading.table :=
    ⟨rfl, rfl, Nat.le_add_right _ _⟩
  simp only [Loading.takeLine]
  by_cases hin : loading.table.size ≤ loading.summary.scanned
  · rw [if_pos hin]
    exact ⟨h, hnothing⟩
  rw [if_neg hin]
  by_cases hused : loading.table.isUsed loading.summary.scanned = true
  · simp only [offered, hused, if_true] at hfew hnothing ⊢
    cases hread : Relation.ofLine line with
    | error cause =>
      simp only [register, hread]
      exact ⟨h.skip (Nat.le_succ _), .refl _⟩
    | ok relation =>
      rw [hread] at hfew
      simp only at hfew
      obtain ⟨htable, hscanned⟩ := state_register
        ⟨loading.table, { loading.summary with scanned := loading.summary.scanned + 1 }⟩ bounds
        loading.summary.scanned hread
      have hdistinct : distinct → (relation.forMatrix.idealsAbove bounds).Nodup := by
        intro _
        rw [Relation.idealsAbove_of_ofLine hread]
        exact (Relation.nodup_lineIdeals line).filter _
      obtain ⟨hintact, hfills, hothers⟩ := h.intact.register (mem_usedSet.mpr hused)
        (h.unlisted _ (Nat.le_refl _)) hdistinct hlaid hfew
      refine ⟨⟨?_, ?_⟩, ?_⟩
      · exact htable ▸ hintact
      · intro row hrow
        have hlater : loading.summary.scanned + 1 ≤ row := hscanned.symm.trans_le hrow
        have hsame := hothers row (by omega)
        exact (htable ▸ hsame).trans (h.unlisted row (by omega))
      · exact htable ▸ hfills
  · rw [if_neg hused]
    exact ⟨h.skip (Nat.le_succ _), hnothing⟩

theorem Underway.take (h : Underway distinct loading) (bounds : Bounds) (event : Event)
    (hlaid : loading.table.arena.capacity ≤ Arena.maxCapacity)
    (hfew : loading.table.roster.size + loading.offered bounds event ≤ Arena.sentinel) :
    Underway distinct (loading.take bounds event).state ∧
      Fills (loading.offered bounds event) loading.table
        (loading.take bounds event).state.table := by
  cases event with
  | opened path => exact ⟨h, .refl _⟩
  | fault cause => exact ⟨h, .refl _⟩
  | line line => exact h.takeLine bounds line hlaid hfew

/-- Wherever a walk over events ends or fails, it leaves an intact table. -/
theorem Underway.each (h : Underway distinct loading) (bounds : Bounds) (events : List Event)
    (hlaid : loading.table.arena.capacity ≤ Arena.maxCapacity)
    (hfew : loading.table.roster.size + loading.entries bounds events ≤ Arena.sentinel) :
    Underway distinct (Run.each (Loading.take bounds) loading events).state ∧
      Fills (loading.entries bounds events) loading.table
        (Run.each (Loading.take bounds) loading events).state.table := by
  induction events generalizing loading with
  | nil => exact ⟨h, .refl _⟩
  | cons event rest ih =>
    rw [entries] at hfew ⊢
    rw [Run.each_cons]
    obtain ⟨hstep, hfills⟩ := h.take bounds event hlaid (by omega)
    generalize loading.take bounds event = run at hstep hfills hfew ⊢
    obtain ⟨after, notices, outcome⟩ := run
    match outcome with
    | .error cause => exact ⟨hstep, hfills⟩
    | .ok false => exact ⟨hstep, hfills⟩
    | .ok true =>
      simp only at hstep hfills hfew
      have hsize := hfills.size_le
      obtain ⟨hrest, hfillsRest⟩ := ih hstep (hfills.capacity_eq ▸ hlaid) (by omega)
      exact ⟨hrest, hfills.trans hfillsRest⟩

theorem state_finish (loading : Loading) : loading.finish.state = loading := by
  obtain ⟨table, scanned, registered, free⟩ := loading
  simp only [finish]
  split <;> rfl

/-- An event that is taken does nothing to the table but register a row. -/
theorem take_keeps (Invariant : Incidence → Prop)
    (hregister : ∀ table row ideals, Invariant table → Invariant (table.register row ideals).state)
    (bounds : Bounds) (loading : Loading) (event : Event) (h : Invariant loading.table) :
    Invariant (loading.take bounds event).state.table := by
  cases event with
  | opened path => exact h
  | fault cause => exact h
  | line line =>
    simp only [take, takeLine]
    split
    · exact h
    · split
      · cases hread : Relation.ofLine line with
        | error cause =>
          simp only [register, hread]
          exact h
        | ok relation =>
          have hstate := state_register
            ⟨loading.table, { loading.summary with scanned := loading.summary.scanned + 1 }⟩ bounds
            loading.summary.scanned hread
          have hkept := hregister loading.table loading.summary.scanned
            (relation.forMatrix.idealsAbove bounds) h
          exact hstate.1 ▸ hkept
      · exact h

end Loading

theorem state_fill (table : Incidence) (bounds : Bounds) (events : List Event) :
    (table.fill bounds events).state =
      (Run.each (Loading.take bounds) ⟨{ table with liveIdeals := 0 }, ⟨0, 0, 0⟩⟩
        events).state.table := by
  simp only [fill]
  obtain ⟨loading, notices, outcome⟩ := Run.each (Loading.take bounds) _ events
  cases outcome with
  | error cause => rfl
  | ok value => exact congrArg Loading.table loading.state_finish

/-- A loading keeps what registrations keep, wherever it stops. -/
theorem load_keeps (Invariant : Incidence → Prop)
    (hregister : ∀ table row ideals, Invariant table → Invariant (table.register row ideals).state)
    {table : Incidence} (h : Invariant table) (hstart : Invariant { table with liveIdeals := 0 })
    (build : Build) (bounds : Bounds) (events : List Event) :
    Invariant (table.load build bounds events).state := by
  rcases table.load_eq_or build bounds events with hload | hload
  · rw [hload, state_fill]
    exact Run.each_keeps (fun loading : Loading => Invariant loading.table)
      (Loading.take_keeps Invariant hregister bounds) hstart events
  · rw [hload]
    exact h

/-- The ideals that the loading of a table offers for registration. -/
def offered (table : Incidence) (bounds : Bounds) (events : List Event) : ℕ :=
  Loading.entries bounds ⟨{ table with liveIdeals := 0 }, ⟨0, 0, 0⟩⟩ events

/-- The loading of a ready table leaves an intact table, whatever the stream has met. -/
theorem Ready.intact_load (h : table.Ready) (distinct : Prop) (build : Build) (bounds : Bounds)
    (events : List Event) (hlaid : table.arena.capacity ≤ Arena.maxCapacity)
    (hfew : table.offered bounds events ≤ Arena.sentinel) :
    (table.load build bounds events).state.Intact distinct ∧
      Fills (table.offered bounds events) table (table.load build bounds events).state := by
  have hsize : ({ table with liveIdeals := 0 } : Incidence).roster.size = 0 := h.roster_size
  have hstart : Loading.Underway distinct ⟨{ table with liveIdeals := 0 }, ⟨0, 0, 0⟩⟩ :=
    ⟨h.intact, fun row _ => h.unlisted row⟩
  rw [load_eq_fill h.roster_size, state_fill]
  obtain ⟨hwalk, hfills⟩ := hstart.each bounds events hlaid (by rw [hsize, Nat.zero_add]; exact hfew)
  exact ⟨hwalk.intact, hfills.used_eq, hfills.capacity_eq, hfills.size_le⟩

end SieveFilter.Incidence
