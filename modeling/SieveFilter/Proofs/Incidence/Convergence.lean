import SieveFilter.Proofs.Incidence.Losses
import SieveFilter.Proofs.Incidence.Operations

/-!
# Convergence of pruning

A round of the final pass moves the excess down by the deletion of representatives and up again by the removal
of singletons.  Whatever the cost prefers, the rounds converge: they end in a table without singletons, whose
excess is the smaller one of the excess to keep and the excess of the core, and there is at most one round more
than rows are deleted.
-/

namespace SieveFilter.Incidence

variable {table : Incidence}

theorem noSingletons_iff :
    table.NoSingletons ↔
      ∀ row ∈ table.usedSet, ∀ slot ∈ table.list row, table.count slot ≠ 1 := by
  simp only [NoSingletons, hasSingleton, List.any_eq_false, beq_iff_eq]

/-- Every round ends with the removal of singletons. -/
theorem noSingletons_pruneRound (table : Incidence) (keep : ℕ) (final : Bool) (cost : Cost) :
    (table.pruneRound keep final cost).table.NoSingletons := by
  rw [pruneRound_table]
  exact noSingletons_removeSingletons _

theorem noSingletons_prune (table : Incidence) (keep : ℕ) (final : Bool) (cost : Cost) :
    (table.prune keep final cost).table.NoSingletons := by
  induction hrows : table.liveRows using Nat.strongRecOn generalizing table with
  | ind rows ih =>
    rcases prune_cases table keep final cost with ⟨-, hlast⟩ | ⟨hfewer, hrest, -⟩
    · rw [hlast]
      exact noSingletons_pruneRound table keep final cost
    · rw [hrest]
      exact ih _ (by omega) _ rfl

/-- The rows that a pruning counts are those that go missing from the used ones. -/
theorem Consistent.liveRows_prune (h : table.Consistent) (keep : ℕ) (final : Bool) (cost : Cost) :
    (table.prune keep final cost).table.liveRows + (table.prune keep final cost).deleted =
      table.liveRows := by
  induction hrows : table.liveRows using Nat.strongRecOn generalizing table with
  | ind rows ih =>
    have hround := ((h.deletes_pruneRound keep final cost).remainder h).consistent
    have hcount := h.usedCount_pruneRound keep final cost
    rw [usedCount_eq_card, usedCount_eq_card, ← hround.liveRows_eq, ← h.liveRows_eq] at hcount
    rcases prune_cases table keep final cost with ⟨-, hlast⟩ | ⟨hfewer, htable, hdeleted, -⟩
    · rw [hlast, ← hrows]
      exact hcount
    · have hrest := ih _ (by omega) hround rfl
      rw [htable, hdeleted]
      omega

/-- Every round but the last one deletes a row. -/
theorem rounds_prune_le (table : Incidence) (keep : ℕ) (final : Bool) (cost : Cost) :
    (table.prune keep final cost).table.liveRows + (table.prune keep final cost).rounds ≤
      table.liveRows + 1 := by
  induction hrows : table.liveRows using Nat.strongRecOn generalizing table with
  | ind rows ih =>
    rcases prune_cases table keep final cost with ⟨hsame, hlast⟩ | ⟨hfewer, htable, -, -, hrounds⟩
    · rw [hlast, hsame, rounds_pruneRound, hrows]
    · have hrest := ih _ (by omega) (table.pruneRound keep final cost).table rfl
      rw [htable, hrounds]
      omega

/-- On a pass that is not the final one no row is deleted to bring down the excess. -/
theorem heavierRows_prune_of_not_final (table : Incidence) (keep : ℕ) (cost : Cost) :
    (table.prune keep false cost).heavierRows = 0 := by
  induction hrows : table.liveRows using Nat.strongRecOn generalizing table with
  | ind rows ih =>
    rcases prune_cases table keep false cost with ⟨-, hlast⟩ | ⟨hfewer, -, -, hheavier, -⟩
    · rw [hlast, heavierRows_pruneRound_of_not_final]
    · rw [hheavier, heavierRows_pruneRound_of_not_final, ih _ (by omega) _ rfl]

/-- Pruning ends in every build, and leaves of a consistent table a consistent one in which no used row has a
slot with a single reference.  It counts the rows that it deletes, and needs at most one round more than
these.  With `G` the greatest set of used rows in which no slot is listed exactly once, a pass that is not the
final one leaves `G` and deletes no row for the excess; the final pass leaves rows of `G` whose excess is
exactly the smaller one of `keep` and the excess of `G`, for every cost, and all of `G` if its excess is at
most `keep`. -/
theorem prune_converges (h : table.Consistent) (keep : ℕ) (hkeep : keep < 2 ^ 63) (final : Bool)
    (cost : Cost) :
    let pruned := table.prune keep final cost
    (∀ build, (table.pruneIn build keep final cost).Ends pruned.table pruned) ∧
      pruned.table.Consistent ∧
      (∀ row ∈ pruned.table.usedSet, ∀ slot ∈ pruned.table.list row,
        pruned.table.count slot ≠ 1) ∧
      pruned.table.liveRows + (pruned.singletonRows + pruned.heavierRows) = table.liveRows ∧
      pruned.rounds ≤ pruned.singletonRows + pruned.heavierRows + 1 ∧
      ∃ G, IsGreatest {T | T ⊆ table.usedSet ∧ ∀ slot, Rows.references table.list T slot ≠ 1} G ∧
        (final = false → pruned.table.usedSet = G ∧ pruned.heavierRows = 0) ∧
        (final = true →
          pruned.table.excess = min (keep : ℤ) (Rows.excess table.list G) ∧
            pruned.table.usedSet ⊆ G ∧
            (Rows.excess table.list G ≤ keep → pruned.table.usedSet = G)) := by
  have hconsistent := ((h.deletes_prune keep final cost).remainder h).consistent
  have hlost := h.liveRows_prune keep final cost
  have hrounds := rounds_prune_le table keep final cost
  simp only [Pruning.deleted] at hlost
  refine ⟨fun build => ends_pruneIn_of_lt build hkeep final cost, hconsistent,
    noSingletons_iff.mp (noSingletons_prune table keep final cost), hlost, by omega,
    Rows.core table.list table.usedSet, Rows.isGreatest_core_forall, ?_, ?_⟩
  · rintro rfl
    exact ⟨h.usedSet_prune_of_not_final keep cost, heavierRows_prune_of_not_final table keep cost⟩
  · rintro rfl
    have hpruned := h.pruned cost hkeep
    exact ⟨hpruned.excess_eq, hpruned.subset_core, hpruned.eq_core⟩

/-- Rows that share one ideal, two that are linked by another one, one that lists an ideal twice, one with
an ideal of its own, and one without ideals. -/
def sampleStar : Incidence :=
  (new 8 64).execute
    [.register 0 [⟨3, 0⟩], .register 1 [⟨3, 0⟩, ⟨5, 0⟩], .register 2 [⟨3, 0⟩, ⟨5, 0⟩],
      .register 3 [⟨3, 0⟩], .register 4 [⟨7, 0⟩, ⟨7, 0⟩], .register 5 [⟨3, 0⟩, ⟨11, 0⟩],
      .register 6 [], .register 7 [⟨3, 0⟩]]

/-- Of the excess `4` that the rows have without the one with an ideal of its own, `2` is kept. -/
theorem prune_converges_sample :
    sampleStar.Consistent ∧ 2 < 2 ^ 63 ∧
      (sampleStar.prune 2 true Cost.weightFraction).table.excess = 2 := by
  have hconsistent : sampleStar.Consistent := by decide +kernel
  have hkeep : 2 < 2 ^ 63 := by decide
  obtain ⟨-, -, -, -, -, G, hgreatest, -, hfinal⟩ :=
    prune_converges hconsistent 2 hkeep true Cost.weightFraction
  have hcore : G = Rows.core sampleStar.list sampleStar.usedSet :=
    hgreatest.unique Rows.isGreatest_core_forall
  have hexcess : Rows.excess sampleStar.list (Rows.core sampleStar.list sampleStar.usedSet) = 4 := by
    decide +kernel
  refine ⟨hconsistent, hkeep, ?_⟩
  rw [(hfinal rfl).1, hcore, hexcess]
  rfl

end SieveFilter.Incidence
