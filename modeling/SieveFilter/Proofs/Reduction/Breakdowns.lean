import SieveFilter.Proofs.Reduction.Keeping
import SieveFilter.Proofs.Reduction.Layout

/-!
# Runs that break off

A run breaks off where a block of lists is asked for that is too large to be laid out or, if the build traps
sums, where a sum does not fit a word.  The capacity of blocks stays the same throughout, and the sums are
those of settings with numbers of rows and ideals, so reasonable settings let a run end with a report or with
a failure of which there is a message.
-/

namespace SieveFilter

theorem Arena.capacity_store (arena : Arena) (list : List ℕ) :
    (arena.store list).state.capacity = arena.capacity := by
  let Invariant (other : Arena) : Prop := other.capacity = arena.capacity
  have hallocated : Invariant (arena.allocate (list.length + 1)).state := by
    simp only [allocate]
    split
    · rfl
    · split
      · rfl
      · show (arena.withRoom _).capacity = arena.capacity
        rw [withRoom]
        split <;> rfl
  exact Run.next_keeps Invariant hallocated fun _ _ hstate => hstate

namespace Incidence

variable {table before after : Incidence}

theorem foldl_addReference_arena (slots : List ℕ) (table : Incidence) :
    (slots.foldl addReference table).arena = table.arena := by
  induction slots generalizing table with
  | nil => rfl
  | cons slot rest ih => rw [List.foldl_cons, ih, addReference]

theorem foldl_dropReference_arena (slots : List ℕ) (table : Incidence) :
    (slots.foldl dropReference table).arena = table.arena := by
  induction slots generalizing table with
  | nil => rfl
  | cons slot rest ih => rw [List.foldl_cons, ih, dropReference_arena]

/-- A registration leaves the capacity of blocks as it is. -/
theorem capacity_register (table : Incidence) (row : ℕ) (ideals : List Ideal) :
    (table.register row ideals).state.arena.capacity = table.arena.capacity := by
  obtain ⟨used, lists, arena, roster, liveRows, liveIdeals⟩ := table
  let Invariant (other : Incidence) : Prop := other.arena.capacity = arena.capacity
  have hstored : Invariant ((arena.store (slotsOf roster ideals).1).within fun arena =>
      (⟨used, lists, arena, (slotsOf roster ideals).2, liveRows, liveIdeals⟩ : Incidence)).state :=
    arena.capacity_store _
  refine Run.next_keeps Invariant hstored fun stored handle hstate => ?_
  exact (congrArg Arena.capacity (foldl_addReference_arena _ _)).trans hstate

theorem capacity_load (table : Incidence) (build : Build) (bounds : Bounds) (events : List Event) :
    (table.load build bounds events).state.arena.capacity = table.arena.capacity := by
  refine load_keeps (·.arena.capacity = table.arena.capacity) ?_ rfl rfl build bounds events
  intro middle row ideals h
  exact (capacity_register middle row ideals).trans h

theorem Deletes.arena_eq (h : Deletes before after) : after.arena = before.arena := by
  induction h with
  | refl => rfl
  | tail _ hstep ih =>
    obtain ⟨row, -, rfl⟩ := hstep
    exact (foldl_dropReference_arena _ _).trans ih

/-- A filling breaks off only where no block can be laid out. -/
theorem maxCapacity_lt_of_fails_fill {bounds : Bounds} {events : List Event}
    (h : (table.fill bounds events).Fails after .breakdown) :
    Arena.maxCapacity < table.arena.capacity := by
  let Invariant (loading : Loading) : Prop := loading.table.arena.capacity = table.arena.capacity
  have hkeeps (loading : Loading) (event : Event) (hloading : Invariant loading) :
      Invariant (loading.take bounds event).state :=
    Loading.take_keeps (·.arena.capacity = table.arena.capacity)
      (fun middle row ideals hmiddle => (capacity_register middle row ideals).trans hmiddle)
      bounds loading event hloading
  obtain ⟨loading, -, hwalk | ⟨middle, -, hfinish⟩⟩ := fails_fill.mp h
  · obtain ⟨middle, hmiddle, event, -, htake⟩ :=
      Run.exists_of_fails_each Invariant hkeeps rfl hwalk
    cases event with
    | opened path => exact absurd htake Run.not_fails_done
    | fault cause => cases (Run.fails_fail.mp htake).2
    | line line =>
      rcases Loading.fails_takeLine htake with ⟨-, -, hcause⟩ | ⟨-, hregister⟩
      · cases hcause
      rcases Loading.fails_register hregister with ⟨error, -, -, hcause⟩ | ⟨relation, -, hstore⟩
      · cases hcause
      rcases (Incidence.fails_register hstore).2 with ⟨-, hcause⟩ | ⟨hlarge, -⟩
      · cases hcause
      · exact hmiddle ▸ hlarge
  · cases (Loading.fails_finish.mp hfinish).2.2

/-- The loading of a blank table breaks off only where no block can be laid out. -/
theorem Blank.maxCapacity_lt_of_fails_load (hblank : table.Blank) {build : Build} {bounds : Bounds}
    {events : List Event} (h : (table.load build bounds events).Fails after .breakdown) :
    Arena.maxCapacity < table.arena.capacity := by
  rcases fails_load.mp h with ⟨⟨-, hleft⟩, -⟩ | ⟨-, hfill⟩
  · exact absurd (congrArg Roster.size hblank.roster_eq) hleft
  · exact maxCapacity_lt_of_fails_fill hfill

/-- A loaded table has no more ideals than its lines. -/
theorem Loads.liveIdeals_le {lines : List String} {bounds : Bounds} {loaded : Incidence}
    (h : Loads lines bounds table loaded) : loaded.liveIdeals ≤ (allIdeals lines).card := by
  have hslots : loaded.roster.liveSlots ⊆ Finset.range loaded.roster.size := by
    intro slot hslot
    rw [Roster.liveSlots, h.represents.wellFormed.values_size] at hslot
    exact (Finset.mem_filter.mp hslot).1
  calc loaded.liveIdeals
      = loaded.roster.liveSlots.card := h.represents.consistent.liveIdeals_eq
    _ ≤ loaded.roster.size := by simpa using Finset.card_le_card hslots
    _ = loaded.roster.known.card := h.represents.wellFormed.card_known.symm
    _ ≤ (allIdeals lines).card := Finset.card_le_card h.known_subset

end Incidence

namespace Reduction

/-- What lets no run of a source break off: blocks that can be laid out and, if the build traps sums, numbers
whose sums fit. -/
structure Sturdy (build : Build) (settings : Settings) (source : Source) : Prop where
  laid : settings.blockCapacity ≤ Arena.maxCapacity
  kept : build.traps = true → settings.keptExcess < 2 ^ 63
  required : build.traps = true → settings.requiredExcess < 2 ^ 63
  few : build.traps = true → ∀ reading,
    (Incidence.allIdeals (Event.texts (source reading))).card ≤ Arena.sentinel

theorem Sturdy.of_texts_eq {build : Build} {settings : Settings} {source source' : Source}
    (h : Sturdy build settings source)
    (htexts : ∀ reading, Event.texts (source' reading) = Event.texts (source reading)) :
    Sturdy build settings source' :=
  ⟨h.laid, h.kept, h.required, fun htraps reading => htexts reading ▸ h.few htraps reading⟩

variable {reduction after : Reduction} {source : Source} {bounds : Bounds}

/-- A sum breaks a run off only where sums are trapped. -/
theorem SumBreaksOff.traps {table : Incidence} (h : reduction.SumBreaksOff table) :
    reduction.build.traps = true := by
  by_contra htraps
  rw [SumBreaksOff, Build.sum?, if_neg htraps] at h
  split at h <;> cases h

/-- A pass on a tidy and blank table does not break off. -/
theorem Sturdy.not_fails_pass (h : Sturdy reduction.build reduction.settings source)
    (htidy : reduction.table.Tidy) (hblank : reduction.table.Blank)
    (hlaid : reduction.table.arena.capacity ≤ Arena.maxCapacity) :
    ¬ (reduction.pass source bounds).Fails after .breakdown := by
  intro hfails
  rcases fails_pass hfails with ⟨loaded, hload, -⟩ | ⟨loaded, summary, hload, hstops⟩
  · exact absurd (hblank.maxCapacity_lt_of_fails_load hload) hlaid.not_gt
  · cases hstops with
    | sum hfinal hbreaks =>
      have hyields := Event.yields_texts (Incidence.not_fault_of_ends_load hload)
      have hfew := h.few hbreaks.traps reduction.readings
      have hideals := (htidy.loads_of_ends hblank hyields hfew hload).1.liveIdeals_le.trans hfew
      have hrequired := h.required hbreaks.traps
      have hsentinel : Arena.sentinel < 2 ^ 63 := by decide
      have hfits : loaded.liveIdeals + reduction.settings.requiredExcess < Build.words := by
        rw [Build.words_eq]
        omega
      exact absurd ((reduction.build.sum?_of_lt hfits).symm.trans hbreaks) (Option.some_ne_none _)
    | pruning htraps hover =>
      rw [Incidence.overflow?_of_lt (h.kept htraps)] at hover
      cases hover

/-- A pass above bounds leaves a tidy table with blocks as before. -/
theorem tidy_of_ends_pass (hrestricted : bounds.admitAll = false) (htidy : reduction.table.Tidy)
    (h : (reduction.pass source bounds).Ends after ()) :
    after.table.resetRoster.Tidy ∧ after.table.arena.capacity = reduction.table.arena.capacity := by
  obtain ⟨loaded, summary, hload, -, -, -, rfl⟩ := ends_pass.mp h
  have hloaded : loaded.Tidy := hload.1 ▸ tidy_load htidy
  have hdeletes := loaded.deletes_prune_of_not_final reduction.settings.keptExcess reduction.cost
  have hcapacity := reduction.table.capacity_load reduction.build bounds (source reduction.readings)
  rw [hload.1, ← hdeletes.arena_eq, ← hrestricted] at hcapacity
  rw [← hrestricted] at hdeletes
  have hreleased := (hloaded.deletes hdeletes).releaseLists
  exact ⟨⟨hreleased.lists_size, hreleased.liveRows_eq⟩, hcapacity⟩

/-- A run does not break off whose blocks can be laid out and whose sums fit where they are trapped. -/
theorem Sturdy.run_ne_breakdown {build : Build} {settings : Settings} (h : Sturdy build settings source)
    (cost : Cost) (matrix : Sink) (map : Option Sink) :
    (run ⟨new build settings cost, matrix, map⟩ source).outcome ≠ .error .breakdown := by
  intro hbroken
  obtain ⟨output, hfails⟩ := Run.exists_fails hbroken
  have htidy : (new build settings cost).table.Tidy := Incidence.tidy_new _ _
  have hblank : (new build settings cost).table.Blank := Incidence.blank_new _ _
  have hlaid : (new build settings cost).table.arena.capacity ≤ Arena.maxCapacity :=
    max_le h.laid (by decide)
  rcases Run.fails_next.mp hfails with hfilter | ⟨middle, _, hfilter, hwrite⟩
  · obtain ⟨stopped, hstops, -⟩ := Run.fails_within.mp hfilter
    rcases fails_filter.mp hstops with hfirst | ⟨first, hfirst, hrestricted, hsecond⟩
    · exact h.not_fails_pass htidy hblank hlaid hfirst
    · obtain ⟨htidySecond, hcapacity⟩ := tidy_of_ends_pass hrestricted htidy hfirst
      have hblankSecond := blank_of_ends_pass hfirst
      have hlaidSecond := hcapacity.trans_le hlaid
      let second : Reduction := { first with table := first.table.resetRoster }
      have hsecondSturdy : Sturdy second.build second.settings source := by
        obtain ⟨loaded, summary, -, -, -, -, rfl⟩ := ends_pass.mp hfirst
        exact h
      exact hsecondSturdy.not_fails_pass htidySecond hblankSecond hlaidSecond hsecond
  · obtain ⟨filtered, hends, rfl⟩ := Run.ends_within.mp hfilter
    exact absurd ⟨.breakdown, trivial, hwrite.2⟩
      (not_starves_write _ source (filtered_of_ends_filter hends))

end Reduction

end SieveFilter
