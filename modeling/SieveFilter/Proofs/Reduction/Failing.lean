import SieveFilter.Proofs.Incidence.Failing
import SieveFilter.Proofs.Reduction.Passes

/-!
# Passes that fail

A pass fails in its loading, or at one of the two checks of the excess.  Filtering fails where one of its
passes does, and the number of passes begun tells which one it was.
-/

namespace SieveFilter.Reduction

theorem fails_load {reduction after : Reduction} {source : Source} {bounds : Bounds}
    {cause : Failure} :
    (reduction.load source bounds).Fails after cause ↔
      ∃ loaded,
        (reduction.table.load reduction.build bounds (source reduction.readings)).Fails loaded cause ∧
        after = { reduction with table := loaded, readings := reduction.readings + 1 } := by
  obtain ⟨build, settings, cost, table, passes, filtered, readings⟩ := reduction
  simp only [load, Run.fails_within, eq_comm]

/-- The sum of the ideals of a table and the required excess breaks the run off. -/
def SumBreaksOff (reduction : Reduction) (table : Incidence) : Prop :=
  reduction.build.sum? table.liveIdeals reduction.settings.requiredExcess = none

/-- The check before the pruning finds too little excess, or breaks off over the sum that it needs. -/
theorem fails_checkInitialExcess {reduction after : Reduction} {final : Bool} {cause : Failure} :
    (reduction.checkInitialExcess final).Fails after cause ↔
      final = true ∧ after = reduction ∧
        (reduction.SumBreaksOff reduction.table ∧ cause = .breakdown ∨
          (∃ least, reduction.build.sum? reduction.table.liveIdeals
            reduction.settings.requiredExcess = some least ∧ reduction.table.liveRows < least) ∧
          cause = .initialExcess reduction.table.liveRows reduction.table.liveIdeals
            reduction.settings.requiredExcess) := by
  rw [checkInitialExcess, SumBreaksOff]
  cases final with
  | false => simp [Run.not_fails_done]
  | true =>
    cases hsum : reduction.build.sum? reduction.table.liveIdeals
        reduction.settings.requiredExcess with
    | none => simp [Run.fails_fail, eq_comm]
    | some least =>
      by_cases hlow : reduction.table.liveRows < least
      · simp [hlow, Run.fails_fail, eq_comm]
      · simp [hlow, Run.not_fails_done]

/-- A pruning breaks off over a sum, with the table that the rounds before have left. -/
theorem fails_prune {reduction after : Reduction} {final : Bool} {cause : Failure} :
    (reduction.prune final).Fails after cause ↔
      reduction.build.traps = true ∧ cause = .breakdown ∧
        ∃ stopped notices, reduction.table.overflow? reduction.settings.keptExcess final
            reduction.cost = some (stopped, notices) ∧
          after = { reduction with table := stopped } := by
  obtain ⟨build, settings, cost, table, passes, filtered, readings⟩ := reduction
  simp only [prune, Run.fails_after, Run.fails_next, Run.not_fails_done, and_false, exists_false,
    or_false, Run.fails_within, Incidence.fails_pruneIn]
  constructor
  · rintro ⟨stopped, ⟨htraps, rfl, notices, hover⟩, rfl⟩
    exact ⟨htraps, rfl, stopped, notices, hover, rfl⟩
  · rintro ⟨htraps, rfl, stopped, notices, hover, rfl⟩
    exact ⟨stopped, ⟨htraps, rfl, notices, hover⟩, rfl⟩

theorem fails_checkExcess {reduction after : Reduction} {cause : Failure} :
    reduction.checkExcess.Fails after cause ↔
      reduction.table.liveRows ≤ reduction.table.liveIdeals ∧
        cause = .noExcess reduction.table.liveRows reduction.table.liveIdeals ∧
        after = reduction := by
  simp only [checkExcess]
  split
  next hlow =>
    rw [Run.fails_fail]
    constructor
    · rintro ⟨rfl, rfl⟩
      exact ⟨hlow, rfl, rfl⟩
    · rintro ⟨-, rfl, rfl⟩
      exact ⟨rfl, rfl⟩
  next hhigh => simp [hhigh]

/-- The reduction when a pass stops with a table. -/
def stoppedAt (reduction : Reduction) (table : Incidence) : Reduction :=
  { reduction with table, passes := reduction.passes + 1, readings := reduction.readings + 1 }

/-- A pass that has loaded its table fails at the check before the pruning, breaks off over a sum of this
check or of the pruning, or fails at the check after it. -/
inductive StopsAfterLoading (reduction : Reduction) (final : Bool) (loaded : Incidence) :
    Reduction → Failure → Prop
  | sum (hfinal : final = true) (hbreaks : reduction.SumBreaksOff loaded) :
      StopsAfterLoading reduction final loaded (reduction.stoppedAt loaded) .breakdown
  | initialExcess {least : ℕ} (hfinal : final = true)
      (hsum : reduction.build.sum? loaded.liveIdeals reduction.settings.requiredExcess = some least)
      (hlow : loaded.liveRows < least) :
      StopsAfterLoading reduction final loaded (reduction.stoppedAt loaded)
        (.initialExcess loaded.liveRows loaded.liveIdeals reduction.settings.requiredExcess)
  | pruning {stopped : Incidence} {notices : List Notice} (htraps : reduction.build.traps = true)
      (hover : loaded.overflow? reduction.settings.keptExcess final reduction.cost =
        some (stopped, notices)) :
      StopsAfterLoading reduction final loaded (reduction.stoppedAt stopped) .breakdown
  | noExcess {pruned : Incidence}
      (hpruned : (loaded.prune reduction.settings.keptExcess final reduction.cost).table = pruned)
      (hlow : pruned.excess ≤ 0) :
      StopsAfterLoading reduction final loaded (reduction.stoppedAt pruned)
        (.noExcess pruned.liveRows pruned.liveIdeals)

/-- A pass fails in its loading or after it. -/
theorem fails_pass {reduction after : Reduction} {source : Source} {bounds : Bounds}
    {cause : Failure} (h : (reduction.pass source bounds).Fails after cause) :
    (∃ loaded,
        (reduction.table.load reduction.build bounds (source reduction.readings)).Fails loaded cause ∧
        after = reduction.stoppedAt loaded) ∨
      ∃ loaded summary,
        (reduction.table.load reduction.build bounds (source reduction.readings)).Ends loaded summary ∧
        StopsAfterLoading reduction bounds.admitAll loaded after cause := by
  obtain ⟨build, settings, cost, table, passes, filtered, readings⟩ := reduction
  simp only [pass, Run.fails_after] at h
  rcases Run.fails_next.mp h with hload | ⟨_, summary, hload, hchecks⟩
  · obtain ⟨loaded, hfails, rfl⟩ := fails_load.mp hload
    exact .inl ⟨loaded, hfails, rfl⟩
  obtain ⟨loaded, hends, rfl⟩ := ends_load.mp hload
  refine .inr ⟨loaded, summary, hends, ?_⟩
  rcases Run.fails_next.mp hchecks with hinitial | ⟨_, _, hinitial, hrest⟩
  · obtain ⟨hfinal, rfl, ⟨hbreaks, rfl⟩ | ⟨⟨least, hsum, hlow⟩, rfl⟩⟩ :=
      fails_checkInitialExcess.mp hinitial
    · exact .sum hfinal hbreaks
    · exact .initialExcess hfinal hsum hlow
  obtain ⟨-, rfl⟩ := ends_checkInitialExcess.mp hinitial
  rcases Run.fails_next.mp hrest with hprune | ⟨_, _, hprune, hrest⟩
  · obtain ⟨htraps, rfl, stopped, notices, hover, rfl⟩ := fails_prune.mp hprune
    exact .pruning htraps hover
  obtain ⟨-, rfl⟩ := ends_prune.mp hprune
  rcases Run.fails_next.mp hrest with hcheck | ⟨_, _, -, hrelease⟩
  · obtain ⟨hlow, rfl, rfl⟩ := fails_checkExcess.mp hcheck
    exact .noExcess rfl (Incidence.excess_nonpos.mpr hlow)
  · exact absurd hrelease Run.not_fails_done

/-- A failed pass has been counted. -/
theorem passes_of_fails_pass {reduction after : Reduction} {source : Source} {bounds : Bounds}
    {cause : Failure} (h : (reduction.pass source bounds).Fails after cause) :
    after.passes = reduction.passes + 1 := by
  rcases fails_pass h with ⟨loaded, -, rfl⟩ | ⟨loaded, summary, -, hstops⟩
  · rfl
  · cases hstops <;> rfl

/-- Filtering fails where its first pass does or, if that is not the final one, its second. -/
theorem fails_filter {reduction after : Reduction} {source : Source} {cause : Failure} :
    (reduction.filter source).Fails after cause ↔
      (reduction.pass source reduction.settings.initialBounds).Fails after cause ∨
        ∃ first, (reduction.pass source reduction.settings.initialBounds).Ends first () ∧
          reduction.settings.initialBounds.admitAll = false ∧
          ({ first with table := first.table.resetRoster }.pass source .none).Fails after
            cause := by
  simp only [filter, Run.fails_next, Run.fails_after, Run.ends_after]
  apply or_congr_right
  cases hall : reduction.settings.initialBounds.admitAll with
  | true => simp [complete]
  | false =>
    simp only [complete, Run.fails_next, Run.not_fails_done, and_false, exists_false, or_false,
      Bool.false_eq_true, if_false, true_and]
    constructor
    · rintro ⟨first, _, hfirst, hsecond⟩
      exact ⟨first, hfirst, hsecond⟩
    · rintro ⟨first, hfirst, hsecond⟩
      exact ⟨first, (), hfirst, hsecond⟩

end SieveFilter.Reduction
