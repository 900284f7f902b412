import SieveFilter.Proofs.Incidence.Loading

/-!
# Loadings that fail

What a loading can fail with, and what a failed registration leaves behind: only slots for the ideals of the
row, none of which has a reference.
-/

namespace SieveFilter

/-- The failures that a loading can end with. -/
def Failure.OfLoading : Failure → Prop
  | .fault _ | .malformed .. | .rowCount .. | .listTooLong .. | .breakdown => True
  | _ => False

namespace Incidence

/-- A registration fails when the list cannot be stored. -/
theorem fails_register {table after : Incidence} {row : ℕ} {ideals : List Ideal} {cause : Failure}
    (h : (table.register row ideals).Fails after cause) :
    after = { table with roster := (slotsOf table.roster ideals).2 } ∧
      (table.arena.capacity < ideals.length + 1 ∧
          cause = .listTooLong (ideals.length + 1) table.arena.capacity ∨
        Arena.maxCapacity < table.arena.capacity ∧ cause = .breakdown) := by
  obtain ⟨used, lists, arena, roster, liveRows, liveIdeals⟩ := table
  simp only [register, Run.fails_next, Run.not_fails_done, and_false, exists_false, or_false] at h
  obtain ⟨arena, hstore, rfl⟩ := Run.fails_within.mp h
  obtain ⟨rfl, hcause⟩ := Arena.fails_store hstore
  rw [length_slotsOf] at hcause
  exact ⟨rfl, hcause⟩

namespace Loading

/-- A line is not registered when it cannot be read, or when the list of its ideals cannot be stored. -/
theorem fails_register {loading after : Loading} {bounds : Bounds} {row : ℕ} {line : String}
    {cause : Failure} (h : (loading.register bounds row line).Fails after cause) :
    (∃ error, Relation.ofLine line = .error error ∧ after = loading ∧
        cause = .malformed row line error) ∨
      ∃ relation, Relation.ofLine line = .ok relation ∧
        (loading.table.register row (relation.forMatrix.idealsAbove bounds)).Fails after.table
          cause := by
  obtain ⟨table, scanned, registered, free⟩ := loading
  cases hread : Relation.ofLine line with
  | error error =>
    simp only [register, hread] at h
    obtain ⟨rfl, rfl⟩ := Run.fails_fail.mp h
    exact .inl ⟨error, rfl, rfl, rfl⟩
  | ok relation =>
    simp only [register, hread, Run.fails_next, Run.not_fails_done, and_false, exists_false,
      or_false] at h
    obtain ⟨inner, hinner, rfl⟩ := Run.fails_within.mp h
    exact .inr ⟨relation, rfl, hinner⟩

/-- A line is not taken when there is no row for it, or when it is not registered. -/
theorem fails_takeLine {loading after : Loading} {bounds : Bounds} {line : String}
    {cause : Failure} (h : (loading.takeLine bounds line).Fails after cause) :
    (loading.table.size ≤ loading.summary.scanned ∧ after = loading ∧
        cause = .rowCount loading.table.size (loading.summary.scanned + 1)) ∨
      loading.table.isUsed loading.summary.scanned = true ∧
        (register bounds
          ⟨loading.table, { loading.summary with scanned := loading.summary.scanned + 1 }⟩
          loading.summary.scanned line).Fails after cause := by
  simp only [takeLine] at h
  split at h
  next hout =>
    obtain ⟨rfl, rfl⟩ := Run.fails_fail.mp h
    exact .inl ⟨hout, rfl, rfl⟩
  next =>
    rw [Run.fails_afterAll] at h
    split at h
    next hused => exact .inr ⟨hused, h⟩
    next => exact absurd h Run.not_fails_done

theorem ofLoading_of_fails_take {loading after : Loading} {bounds : Bounds} {event : Event}
    {cause : Failure} (h : (loading.take bounds event).Fails after cause) : cause.OfLoading := by
  cases event with
  | opened path => exact absurd h Run.not_fails_done
  | fault fault =>
    obtain ⟨-, rfl⟩ := Run.fails_fail.mp h
    trivial
  | line line =>
    rcases fails_takeLine h with ⟨-, -, rfl⟩ | ⟨-, hregister⟩
    · trivial
    · rcases fails_register hregister with ⟨error, -, -, rfl⟩ | ⟨relation, -, hstore⟩
      · trivial
      · rcases (Incidence.fails_register hstore).2 with ⟨-, rfl⟩ | ⟨-, rfl⟩
        · trivial
        · trivial

theorem fails_finish {loading after : Loading} {cause : Failure} :
    loading.finish.Fails after cause ↔
      loading.summary.scanned ≠ loading.table.size ∧ loading = after ∧
        .rowCount loading.table.size loading.summary.scanned = cause := by
  obtain ⟨table, scanned, registered, free⟩ := loading
  simp only [finish, Run.fails_after]
  by_cases hall : scanned = table.size
  · simp [hall]
  · rw [if_neg hall, Run.fails_fail]
    simp [hall]

end Loading

/-- The filling of a table fails at an event, or for want of lines. -/
theorem fails_fill {table after : Incidence} {bounds : Bounds} {events : List Event}
    {cause : Failure} :
    (table.fill bounds events).Fails after cause ↔
      ∃ loading : Loading, loading.table = after ∧
        ((Run.each (Loading.take bounds) ⟨{ table with liveIdeals := 0 }, ⟨0, 0, 0⟩⟩
            events).Fails loading cause ∨
          ∃ middle : Loading,
            (Run.each (Loading.take bounds) ⟨{ table with liveIdeals := 0 }, ⟨0, 0, 0⟩⟩
              events).Ends middle () ∧ middle.finish.Fails loading cause) := by
  simp only [fill, Run.fails_within, Run.fails_next]
  constructor
  · rintro ⟨loading, hwalk | ⟨middle, _, hwalk, hfinish⟩, rfl⟩
    · exact ⟨loading, rfl, .inl hwalk⟩
    · exact ⟨loading, rfl, .inr ⟨middle, hwalk, hfinish⟩⟩
  · rintro ⟨loading, rfl, hwalk | ⟨middle, hwalk, hfinish⟩⟩
    · exact ⟨loading, .inl hwalk, rfl⟩
    · exact ⟨loading, .inr ⟨middle, (), hwalk, hfinish⟩, rfl⟩

/-- A loading breaks off over a roster that is not empty, or fails with the filling of the table. -/
theorem fails_load {table after : Incidence} {build : Build} {bounds : Bounds} {events : List Event}
    {cause : Failure} :
    (table.load build bounds events).Fails after cause ↔
      (build.asserts = true ∧ table.roster.size ≠ 0) ∧ table = after ∧ .breakdown = cause ∨
        (build.asserts = true → table.roster.size = 0) ∧
          (table.fill bounds events).Fails after cause := by
  rw [load]
  split
  next hbroken => simp_all [Run.fails_fail]
  next hfilled => simp_all

theorem ofLoading_of_fails_load {table after : Incidence} {build : Build} {bounds : Bounds}
    {events : List Event} {cause : Failure} (h : (table.load build bounds events).Fails after cause) :
    cause.OfLoading := by
  rcases fails_load.mp h with ⟨-, -, rfl⟩ | ⟨-, hfill⟩
  · trivial
  obtain ⟨loading, -, hwalk | ⟨middle, -, hfinish⟩⟩ := fails_fill.mp hfill
  · obtain ⟨_, -, _, -, htake⟩ :=
      Run.exists_of_fails_each (fun _ => True) (fun _ _ _ => trivial) trivial hwalk
    exact Loading.ofLoading_of_fails_take htake
  · rw [← (Loading.fails_finish.mp hfinish).2.2]
    trivial

/-! ## Lists that are too long -/

/-- The row that a loading has come to: it is used, and of the used rows those below it have their lists. -/
def Awaits (table : Incidence) (row : ℕ) : Prop :=
  row ∈ table.usedSet ∧
    ∀ other ∈ table.usedSet, table.lists.getD other none = none ↔ row ≤ other

/-- A loading stops at a row whose list, with the sentinel that ends it, does not fit into a block. -/
structure StopsForLength (lines : List String) (bounds : Bounds) (needed capacity : ℕ)
    (stopped : Incidence) (row : ℕ) : Prop where
  awaits : stopped.Awaits row
  inside : row < lines.length
  needed_eq : needed = (admitted lines bounds row).length + 1
  long : capacity < needed

namespace Loading

variable {lines : List String} {bounds : Bounds} {start : Incidence} {loading after : Loading}
  {needed capacity : ℕ}

theorem stopsForLength_of_fails_takeLine {line : String} (hsound : Sound lines bounds start loading)
    (hline : lines[loading.summary.scanned]? = some line)
    (hfails : (loading.takeLine bounds line).Fails after (.listTooLong needed capacity)) :
    capacity = start.arena.capacity ∧
      StopsForLength lines bounds needed capacity after.table loading.summary.scanned := by
  rcases fails_takeLine hfails with ⟨-, -, hcause⟩ | ⟨hused, hregister⟩
  · cases hcause
  rcases fails_register hregister with ⟨error, -, -, hcause⟩ | ⟨relation, hread, hstore⟩
  · cases hcause
  obtain ⟨htable, hcause⟩ := Incidence.fails_register hstore
  rcases hcause with ⟨hlong, hcause⟩ | ⟨-, hcause⟩
  · rw [idealsAbove_eq_admitted hline hread] at hlong hcause
    cases hcause
    refine ⟨Loaded.capacity_eq hsound, ⟨?_, (List.getElem?_eq_some_iff.mp hline).1, rfl, hlong⟩⟩
    rw [htable]
    refine ⟨mem_usedSet.mpr hused, ?_⟩
    intro other hother
    constructor
    · intro hnone
      by_contra hlt
      obtain ⟨handle, slots, hlist, -⟩ := Loaded.held hsound other hother (Nat.not_le.mp hlt)
      exact absurd (hlist.symm.trans hnone) (Option.some_ne_none handle)
    · intro hle
      exact Loaded.unlisted hsound other (.inr hle)
  · cases hcause

theorem stopsForLength_of_fails_each {events : List Event} {rest : List String}
    (hyields : Event.Yields events rest) (hsound : Sound lines bounds start loading)
    (hrest : lines.drop loading.summary.scanned = rest)
    (hlaid : start.arena.capacity ≤ Arena.maxCapacity)
    (hfew : (allIdeals lines).card ≤ Arena.sentinel)
    (hfails : (Run.each (take bounds) loading events).Fails after (.listTooLong needed capacity)) :
    capacity = start.arena.capacity ∧
      ∃ row, StopsForLength lines bounds needed capacity after.table row := by
  induction hyields generalizing loading with
  | nil => exact absurd hfails Run.not_fails_done
  | opened _ ih =>
    rcases Run.fails_each_cons.mp hfails with hfirst | ⟨middle, hends, hlater⟩
    · exact absurd hfirst Run.not_fails_done
    · obtain ⟨rfl, -⟩ := Run.ends_done.mp hends
      exact ih hsound hrest hlater
  | @line text events rest _ ih =>
    obtain ⟨hline, hdrop⟩ := next_of_drop hrest
    rcases Run.fails_each_cons.mp hfails with hfirst | ⟨middle, hends, hlater⟩
    · obtain ⟨hcapacity, hstops⟩ := stopsForLength_of_fails_takeLine hsound hline hfirst
      exact ⟨hcapacity, loading.summary.scanned, hstops⟩
    · obtain ⟨hscanned, hnext⟩ := hsound.of_ends hline hlaid hfew hends
      exact ih hnext (by rw [hscanned, hdrop]) hlater

end Loading

theorem Ready.stopsForLength_of_fails_load {table after : Incidence} (h : table.Ready)
    {lines : List String} {build : Build} {bounds : Bounds} {events : List Event}
    (hyields : Event.Yields events lines) (hlaid : table.arena.capacity ≤ Arena.maxCapacity)
    (hfew : (allIdeals lines).card ≤ Arena.sentinel) {needed capacity : ℕ}
    (hfails : (table.load build bounds events).Fails after (.listTooLong needed capacity)) :
    capacity = table.arena.capacity ∧
      ∃ row, StopsForLength lines bounds needed capacity after row := by
  rw [load_eq_fill h.roster_size] at hfails
  have hsound : Loading.Sound lines bounds { table with liveIdeals := 0 }
      ⟨{ table with liveIdeals := 0 }, ⟨0, 0, 0⟩⟩ := h.loaded _
  obtain ⟨loading, rfl, hwalk | ⟨middle, -, hfinish⟩⟩ := fails_fill.mp hfails
  · have hstops := Loading.stopsForLength_of_fails_each hyields hsound rfl hlaid hfew hwalk
    exact hstops
  · cases (Loading.fails_finish.mp hfinish).2.2

end Incidence

end SieveFilter
