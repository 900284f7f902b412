import SieveFilter.Proofs.Incidence.Trimming
import SieveFilter.Proofs.Incidence.Upkeep

/-!
# Tidy and blank tables

A table is tidy when it has a place for the list of each row and knows the number of its used rows.  Every
loading keeps it so, wherever it stops and whatever the roster held before, and so does every deletion of a
used row.  A tidy table whose roster and arena are empty can be loaded whatever the capacity of its blocks is.
-/

namespace SieveFilter

namespace Incidence

structure Tidy (table : Incidence) : Prop where
  lists_size : table.lists.size = table.size
  liveRows_eq : table.liveRows = table.usedSet.card

/-- Nothing is stored in the table and nothing is counted. -/
structure Blank (table : Incidence) : Prop where
  roster_eq : table.roster = .empty
  unlisted : ∀ row, table.lists.getD row none = none
  blocks_eq : table.arena.blocks = #[]

/-- The rows of two tables are the same, and as many lists have a place. -/
structure SameRows (before after : Incidence) : Prop where
  used_eq : after.used = before.used
  liveRows_eq : after.liveRows = before.liveRows
  lists_size_eq : after.lists.size = before.lists.size

variable {table before after : Incidence}

theorem Tidy.of_sameRows (h : before.Tidy) (hsame : SameRows before after) : after.Tidy := by
  refine ⟨?_, ?_⟩
  · rw [hsame.lists_size_eq, h.lists_size, size, size, hsame.used_eq]
  · rw [hsame.liveRows_eq, h.liveRows_eq, usedSet, usedSet, hsame.used_eq]

theorem Consistent.tidy (h : table.Consistent) : table.Tidy :=
  ⟨h.lists_size, h.liveRows_eq⟩

theorem tidy_new (rows blockCapacity : ℕ) : (new rows blockCapacity).Tidy :=
  ⟨(ready_new rows blockCapacity).lists_size, (ready_new rows blockCapacity).liveRows_eq⟩

theorem blank_new (rows blockCapacity : ℕ) : (new rows blockCapacity).Blank :=
  ⟨rfl, (ready_new rows blockCapacity).unlisted, rfl⟩

/-- Once its lists are released and its roster is emptied, nothing is left in a table. -/
theorem blank_released (table : Incidence) : table.releaseLists.resetRoster.Blank :=
  ⟨rfl, getD_releaseLists table, rfl⟩

theorem Tidy.ready (h : table.Tidy) (hblank : table.Blank) : table.Ready := by
  refine ⟨h.lists_size, hblank.unlisted, ?_, ?_, h.liveRows_eq⟩
  · rw [hblank.roster_eq]
    exact Roster.wellFormed_empty
  · rw [hblank.roster_eq]
    rfl

theorem Tidy.releaseLists (h : table.Tidy) : table.releaseLists.Tidy :=
  ⟨(Array.size_map ..).trans h.lists_size, h.liveRows_eq⟩

/-! ## Deletions -/

theorem delete_lists_size (table : Incidence) (row : ℕ) :
    (table.delete row).lists.size = table.lists.size := by
  have hfold (slots : List ℕ) (table : Incidence) :
      (slots.foldl dropReference table).lists = table.lists := by
    induction slots generalizing table with
    | nil => rfl
    | cons slot rest ih => rw [List.foldl_cons, ih, dropReference_lists]
  simp [delete, hfold]

theorem Tidy.delete (h : table.Tidy) {row : ℕ} (hrow : row ∈ table.usedSet) :
    (table.delete row).Tidy := by
  constructor
  · rw [delete_lists_size, h.lists_size]
    simp [size]
  · rw [delete_liveRows, h.liveRows_eq, usedSet_delete, Finset.card_erase_of_mem hrow]

theorem Tidy.deletes (h : before.Tidy) (hdeletes : Deletes before after) : after.Tidy := by
  induction hdeletes with
  | refl => exact h
  | tail _ hstep ih =>
    obtain ⟨row, hrow, rfl⟩ := hstep
    exact ih.delete hrow

/-- On a pass that is not the final one, pruning deletes used rows only, whatever the counts are. -/
theorem deletes_prune_of_not_final (table : Incidence) (keep : ℕ) (cost : Cost) :
    Deletes table (table.prune keep false cost).table := by
  induction hrows : table.liveRows using Nat.strongRecOn generalizing table with
  | ind rows ih =>
    have hround : Deletes table (table.pruneRound keep false cost).table := by
      rw [pruneRound_table_of_not_final]
      exact (peels_removeSingletons table).deletes
    have hle := liveRows_pruneRound_le table keep false cost
    rw [prune_table]
    split
    next hsame => exact hround
    next hless => exact hround.trans (ih _ (by omega) _ rfl)

/-- Pruning on the final pass leaves no singletons, whatever excess is asked for. -/
theorem Consistent.stable_prune (h : table.Consistent) (keep : ℕ) (cost : Cost) :
    Rows.Stable table.list (table.prune keep true cost).table.usedSet := by
  induction hrows : table.liveRows using Nat.strongRecOn generalizing table with
  | ind rows ih =>
    have hround := (h.deletes_pruneRound keep true cost).remainder h
    have hle := liveRows_pruneRound_le table keep true cost
    rw [prune_table]
    split
    next hsame => exact h.stable_pruneRound keep cost
    next hless =>
      have hrest := (hround.consistent.deletes_prune keep true cost).remainder hround.consistent
      rw [← Rows.stable_congr fun row hrow => hround.list_eq row (hrest.usedSet_subset hrow)]
      exact ih _ (by omega) hround.consistent rfl

/-! ## Loadings -/

namespace SameRows

theorem refl (table : Incidence) : SameRows table table :=
  ⟨rfl, rfl, rfl⟩

theorem trans {middle : Incidence} (h : SameRows before middle) (h' : SameRows middle after) :
    SameRows before after :=
  ⟨h'.used_eq.trans h.used_eq, h'.liveRows_eq.trans h.liveRows_eq,
    h'.lists_size_eq.trans h.lists_size_eq⟩

end SameRows

theorem sameRows_foldl_addReference (slots : List ℕ) (table : Incidence) :
    SameRows table (slots.foldl addReference table) := by
  induction slots generalizing table with
  | nil => exact .refl table
  | cons slot rest ih =>
    have hfirst : SameRows table (table.addReference slot) := ⟨rfl, rfl, rfl⟩
    exact hfirst.trans (ih (table.addReference slot))

/-- A registration changes no row, whether it succeeds or fails. -/
theorem sameRows_register (table : Incidence) (row : ℕ) (ideals : List Ideal) :
    SameRows table (table.register row ideals).state := by
  obtain ⟨used, lists, arena, roster, liveRows, liveIdeals⟩ := table
  simp only [register]
  obtain ⟨arena, notices, outcome⟩ := arena.store (slotsOf roster ideals).1
  cases outcome with
  | error cause => exact ⟨rfl, rfl, rfl⟩
  | ok handle =>
    obtain ⟨hused, hliveRows, hlists⟩ := sameRows_foldl_addReference (slotsOf roster ideals).1
      ⟨used, lists.setIfInBounds row (some handle), arena, (slotsOf roster ideals).2, liveRows,
        liveIdeals⟩
    exact ⟨hused, hliveRows, hlists.trans Array.size_setIfInBounds⟩

/-- A loading changes no row, wherever it stops. -/
theorem sameRows_load (table : Incidence) (build : Build) (bounds : Bounds) (events : List Event) :
    SameRows table (table.load build bounds events).state := by
  refine load_keeps (SameRows table) ?_ ⟨rfl, rfl, rfl⟩ ⟨rfl, rfl, rfl⟩ build bounds events
  intro middle row ideals h
  exact h.trans (sameRows_register middle row ideals)

/-! ## Blocks that cannot be laid out -/

/-- No list is stored in an empty arena whose blocks cannot be laid out. -/
theorem not_ends_register_of_large (hblocks : table.arena.blocks = #[])
    (hlarge : Arena.maxCapacity < table.arena.capacity) (row : ℕ) (ideals : List Ideal)
    (after : Incidence) : ¬ (table.register row ideals).Ends after () := by
  obtain ⟨used, lists, arena, roster, liveRows, liveIdeals⟩ := table
  simp only at hblocks hlarge
  intro hends
  simp only [register] at hends
  obtain ⟨_, _, hstore, -⟩ := Run.ends_next.mp hends
  obtain ⟨_, hstore, -⟩ := Run.ends_within.mp hstore
  obtain ⟨_, _, hallocate, -⟩ := Run.ends_next.mp hstore
  have hneeds (n : ℕ) : arena.needsBlock n = true := by simp [Arena.needsBlock, hblocks]
  simp only [Arena.allocate, hneeds, Bool.true_and, decide_eq_true hlarge, if_true] at hallocate
  split at hallocate
  · exact Run.not_ends_fail hallocate
  · exact Run.not_ends_fail hallocate

namespace Loading

/-- Where no block can be laid out, a line is passed over or not taken. -/
theorem of_ends_takeLine_of_large {bounds : Bounds} {loading after : Loading} {line : String}
    {more : Bool} (hblocks : loading.table.arena.blocks = #[])
    (hlarge : Arena.maxCapacity < loading.table.arena.capacity)
    (hends : (loading.takeLine bounds line).Ends after more) :
    loading.table.isUsed loading.summary.scanned = false ∧ after.table = loading.table ∧
      after.summary.scanned = loading.summary.scanned + 1 ∧ more = true := by
  simp only [takeLine] at hends
  split at hends
  · exact absurd hends Run.not_ends_fail
  rw [Run.ends_afterAll] at hends
  split at hends
  next hused =>
    obtain ⟨table, scanned, registered, free⟩ := loading
    simp only [register] at hends
    split at hends
    · exact absurd hends Run.not_ends_fail
    · obtain ⟨_, _, hregister, -⟩ := Run.ends_next.mp hends
      obtain ⟨inner, hregister, -⟩ := Run.ends_within.mp hregister
      exact absurd hregister (not_ends_register_of_large hblocks hlarge _ _ inner)
  next hunused =>
    obtain ⟨rfl, rfl⟩ := Run.ends_done.mp hends
    exact ⟨Bool.eq_false_iff.mpr hunused, rfl, rfl, rfl⟩

/-- Where no block can be laid out, a walk that ends has met rows without a use only. -/
theorem of_ends_each_of_large {bounds : Bounds} {events : List Event} {loading after : Loading}
    (hblocks : loading.table.arena.blocks = #[])
    (hlarge : Arena.maxCapacity < loading.table.arena.capacity)
    (hends : (Run.each (take bounds) loading events).Ends after ()) :
    after.table = loading.table ∧
      ∀ row, loading.summary.scanned ≤ row → row < after.summary.scanned →
        loading.table.isUsed row = false := by
  induction events generalizing loading with
  | nil =>
    obtain ⟨rfl, -⟩ := Run.ends_done.mp hends
    exact ⟨rfl, fun row hle hlt => by omega⟩
  | cons event rest ih =>
    obtain ⟨middle, more, hfirst, hrest⟩ := Run.ends_each_cons.mp hends
    cases event with
    | opened path =>
      obtain ⟨rfl, rfl⟩ := Run.ends_done.mp hfirst
      exact ih hblocks hlarge hrest
    | fault cause => exact absurd hfirst Run.not_ends_fail
    | line line =>
      obtain ⟨hunused, htable, hscanned, rfl⟩ := of_ends_takeLine_of_large hblocks hlarge hfirst
      obtain ⟨hsame, hrows⟩ := ih (htable ▸ hblocks) (htable ▸ hlarge) hrest
      refine ⟨hsame.trans htable, ?_⟩
      intro row hle hlt
      rcases Nat.eq_or_lt_of_le hle with rfl | hlater
      · exact hunused
      · exact htable ▸ hrows row (by omega) hlt

end Loading

/-- Where no block can be laid out, a table can be loaded only if none of its rows is used, and the loading
does nothing. -/
theorem of_ends_load_of_large {build : Build} {bounds : Bounds} {events : List Event}
    {summary : LoadSummary} (hblocks : table.arena.blocks = #[])
    (hlarge : Arena.maxCapacity < table.arena.capacity)
    (hends : (table.load build bounds events).Ends after summary) :
    after = { table with liveIdeals := 0 } ∧ table.usedSet = ∅ := by
  obtain ⟨loading, hloading, rfl⟩ := Run.ends_within.mp (ends_load.mp hends).2
  obtain ⟨middle, _, hwalk, hfinish⟩ := Run.ends_next.mp hloading
  obtain ⟨hall, rfl, -⟩ := Loading.ends_finish.mp hfinish
  have hstart : (⟨{ table with liveIdeals := 0 }, ⟨0, 0, 0⟩⟩ : Loading).table.arena.blocks = #[] :=
    hblocks
  obtain ⟨htable, hrows⟩ := Loading.of_ends_each_of_large hstart hlarge hwalk
  refine ⟨htable, Finset.eq_empty_of_forall_notMem fun row hrow => ?_⟩
  have hsize : middle.table.size = table.size := by rw [htable]; rfl
  have hin := lt_size_of_mem_usedSet hrow
  have hunused := hrows row (Nat.zero_le row) (by omega)
  rw [mem_usedSet] at hrow
  exact Bool.false_ne_true (hunused.symm.trans hrow)

/-- A tidy and blank table that is loaded with success represents the ideals of its used rows. -/
theorem Tidy.loads_of_ends (h : table.Tidy) (hblank : table.Blank) {lines : List String}
    {build : Build} {bounds : Bounds} {events : List Event} (hyields : Event.Yields events lines)
    (hfew : (allIdeals lines).card ≤ Arena.sentinel) {summary : LoadSummary}
    (hends : (table.load build bounds events).Ends after summary) :
    Loads lines bounds table after ∧ (table.usedSet.Nonempty → Loadable lines bounds table) := by
  have hready := h.ready hblank
  rcases Nat.lt_or_ge Arena.maxCapacity table.arena.capacity with hlarge | hlaid
  swap
  · obtain ⟨hloadable, hloads⟩ := hready.loads_of_ends hyields hlaid hfew hends
    exact ⟨hloads, fun _ => hloadable⟩
  · obtain ⟨rfl, hnone⟩ := of_ends_load_of_large hblank.blocks_eq hlarge hends
    have hnoRows : ({ table with liveIdeals := 0 } : Incidence).usedSet = ∅ := hnone
    have hintact : Intact True { table with liveIdeals := 0 } := hready.intact
    refine ⟨⟨⟨hintact.consistent, hready.wellFormed, ?_⟩, rfl, rfl, rfl, ?_⟩, ?_⟩
    · rw [hnoRows]
      intro row hrow
      exact absurd hrow (Finset.notMem_empty row)
    · intro ideal hideal
      obtain ⟨slot, hslot⟩ := Roster.mem_known.mp hideal
      have hlt := Roster.lt_size_of_ideal? hslot
      have hsize : table.roster.size = 0 := hready.roster_size
      simp only [hsize] at hlt
      omega
    · rw [hnone]
      intro hsome
      exact absurd hsome Finset.not_nonempty_empty

end Incidence

end SieveFilter
