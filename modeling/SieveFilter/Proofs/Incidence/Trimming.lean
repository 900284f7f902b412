import SieveFilter.Incidence.Trim
import SieveFilter.Proofs.Incidence.Clusters
import SieveFilter.Proofs.Incidence.Singletons
import SieveFilter.Proofs.Support.Runs

/-!
# The excess after trimming and pruning

One deletion lowers the excess by at most one, so a trimming that passes its target stops on it; and it
cannot run out of clusters, because without all of the representatives the excess is not positive.  The
removal of singletons never lowers the excess.  Pruning therefore ends with the smaller one of the excess
asked for and the excess of the core, whichever clusters the cost prefers.
-/

namespace SieveFilter.Incidence

variable {table : Incidence}

/-- Counts below `2^63` keep their value as signed numbers. -/
theorem signed_eq {keep : ℕ} (hkeep : keep < 2 ^ 63) : signed keep = keep := by
  have hwidth : Nat.pow 2 64 = 2 ^ 64 := Nat.pow_eq
  apply Int.bmod_eq_of_le
  · omega
  · omega

/-- A number that is read as a signed one has 63 bits beside the sign. -/
theorem signed_bounds (keep : ℕ) : -2 ^ 63 ≤ signed keep ∧ signed keep < 2 ^ 63 := by
  have hwrap : signed keep = Int.bmod keep (2 ^ 64) := congrArg (Int.bmod keep) Nat.pow_eq
  have hlow := Int.le_bmod (x := keep) (m := 2 ^ 64) (by decide)
  have hhigh := Int.bmod_lt (x := keep) (m := 2 ^ 64) (by decide)
  rw [hwrap]
  omega

/-! ## Targets -/

theorem sumOverflows_iff {keep : ℕ} :
    table.sumOverflows keep = true ↔
      signed keep < table.excess ∧ table.excess + signed keep < -2 ^ 63 := by
  have hwidth : Nat.pow 2 63 = 2 ^ 63 := Nat.pow_eq
  simp only [sumOverflows, hwidth, Bool.and_eq_true, decide_eq_true_eq]
  norm_cast

/-- No sum with a bound below `2 ^ 63` is too small. -/
theorem sumOverflows_of_lt (table : Incidence) {keep : ℕ} (hkeep : keep < 2 ^ 63) :
    table.sumOverflows keep = false := by
  rw [Bool.eq_false_iff, ne_eq, sumOverflows_iff, signed_eq hkeep]
  omega

/-- Half of a sum that fits. -/
theorem target_of_fits {keep : ℕ} (hfits : table.sumOverflows keep = false) :
    table.target keep = (table.excess + signed keep).tdiv 2 := by
  rw [target, hfits, if_neg Bool.false_ne_true]

/-- Half of a sum that is too small is above the excess, since it is read modulo `2 ^ 64`. -/
theorem excess_le_target_of_overflows {keep : ℕ} (hover : table.sumOverflows keep = true) :
    table.excess ≤ table.target keep := by
  obtain ⟨hlt, hsum⟩ := sumOverflows_iff.mp hover
  obtain ⟨hlow, -⟩ := signed_bounds keep
  have hwidth : Nat.pow 2 64 = 2 ^ 64 := Nat.pow_eq
  have hhalf : 0 ≤ (table.excess + signed keep + (2 ^ 64 : ℕ)).tdiv 2 :=
    Int.tdiv_nonneg (by omega) (by decide)
  rw [target, hover, if_pos rfl, hwidth]
  omega

/-- For fewer than `2 ^ 62` rows the target is half of the sum in signed words. -/
theorem target_eq_bmod {keep : ℕ} (hrows : table.liveRows < 2 ^ 62)
    (hideals : table.liveIdeals < 2 ^ 62) (hlt : signed keep < table.excess) :
    table.target keep = (Int.bmod (table.excess + signed keep) (2 ^ 64)).tdiv 2 := by
  obtain ⟨hlow, hhigh⟩ := signed_bounds keep
  have hexcess : table.excess = table.liveRows - table.liveIdeals := rfl
  have hwidth : Nat.pow 2 64 = 2 ^ 64 := Nat.pow_eq
  rw [target, hwidth]
  congr 1
  split
  next hover =>
    have hsum := (sumOverflows_iff.mp hover).2
    rw [← Int.add_bmod_right]
    exact (Int.bmod_eq_of_le (by omega) (by omega)).symm
  next hfits =>
    rw [sumOverflows_iff] at hfits
    exact (Int.bmod_eq_of_le (by omega) (by omega)).symm

/-- Ranking puts the representatives of the clusters into an order. -/
theorem ranked_perm (cost : Cost) (extent : Extent) (clusters : List Cluster) :
    (ranked cost extent clusters).Perm (clusters.map Cluster.representative) := by
  have hsort := (List.mergeSort_perm (clusters.map fun c =>
    (Decimal.orderKey (cost c extent), c.representative)) fun a b => b.1 ≤ a.1).map (·.2)
  rwa [List.map_map] at hsort

/-- Rows of an order stay used while a row that comes before them is deleted. -/
theorem used_delete_of_nodup {row : ℕ} {rest : List ℕ} (hnodup : (row :: rest).Nodup)
    (hused : ∀ other ∈ row :: rest, other ∈ table.usedSet) :
    ∀ other ∈ rest, other ∈ (table.delete row).usedSet := by
  intro other hother
  rw [usedSet_delete, Finset.mem_erase]
  constructor
  · rintro rfl
    exact (List.nodup_cons.mp hnodup).1 hother
  · exact hused other (List.mem_cons_of_mem _ hother)

theorem deletes_deleteUntil (target : ℤ) {rows : List ℕ} (deleted : ℕ)
    (hnodup : rows.Nodup) (hused : ∀ row ∈ rows, row ∈ table.usedSet) :
    Deletes table (deleteUntil target table deleted rows).table := by
  induction rows generalizing table deleted with
  | nil => exact .refl
  | cons row rest ih =>
    simp only [deleteUntil]
    split
    · exact .refl
    · have hrow := hused row List.mem_cons_self
      apply Relation.ReflTransGen.head ⟨row, hrow, rfl⟩
      exact ih (deleted + 1) hnodup.of_cons (used_delete_of_nodup hnodup hused)

/-- The excess after the deletion of a used row is that of the other used rows. -/
theorem Consistent.excess_delete (h : table.Consistent) {row : ℕ} (hrow : row ∈ table.usedSet) :
    (table.delete row).excess = Rows.excess table.list (table.usedSet.erase row) := by
  rw [(h.delete hrow).excess_eq, usedSet_delete]
  exact Rows.excess_congr fun other hother =>
    h.list_delete_of_ne hrow (Finset.ne_of_mem_erase hother)

/-- Rows that are taken away after the deletion of a used row are taken away together with it. -/
theorem Consistent.excess_delete_sdiff (h : table.Consistent) {row : ℕ} (hrow : row ∈ table.usedSet)
    (rows : Finset ℕ) :
    Rows.excess (table.delete row).list ((table.delete row).usedSet \ rows) =
      Rows.excess table.list (table.usedSet \ insert row rows) := by
  rw [usedSet_delete, Finset.sdiff_insert, Finset.erase_sdiff_comm]
  exact Rows.excess_congr fun other hother =>
    h.list_delete_of_ne hrow (Finset.ne_of_mem_erase hother)

/-- Deleting rows in an order until the excess is down to a target stops exactly on the target, if the
excess starts above it and would not be above it once all rows of the order were deleted. -/
theorem Consistent.excess_deleteUntil (h : table.Consistent) {target : ℤ} {rows : List ℕ}
    (deleted : ℕ) (hnodup : rows.Nodup) (hused : ∀ row ∈ rows, row ∈ table.usedSet)
    (habove : target ≤ table.excess)
    (hreach : Rows.excess table.list (table.usedSet \ rows.toFinset) ≤ target) :
    (deleteUntil target table deleted rows).table.excess = target := by
  induction rows generalizing table deleted with
  | nil =>
    rw [List.toFinset_nil, Finset.sdiff_empty, ← h.excess_eq] at hreach
    exact le_antisymm hreach habove
  | cons row rest ih =>
    have hrow := hused row List.mem_cons_self
    simp only [deleteUntil]
    split
    next hstop => exact le_antisymm hstop habove
    next hgo =>
      refine ih (h.delete hrow) (deleted + 1) hnodup.of_cons (used_delete_of_nodup hnodup hused) ?_ ?_
      · have hstep := Rows.excess_erase_ge table.list hrow
        rw [← h.excess_delete hrow, ← h.excess_eq] at hstep
        omega
      · rw [h.excess_delete_sdiff hrow, ← List.toFinset_cons]
        exact hreach

/-- Trimming is a sequence of deletions of representatives. -/
theorem Consistent.deletes_trim (h : table.Consistent) (keep : ℕ) (cost : Cost) :
    Deletes table (table.trim keep cost).table := by
  obtain ⟨hnodup, hused, -⟩ := h.representatives
  have hperm := ranked_perm cost table.extent table.clusters
  simp only [trim]
  split
  · exact .refl
  · exact deletes_deleteUntil _ 0 (hperm.nodup_iff.mpr hnodup)
      fun row hrow => hused row (hperm.mem_iff.mp hrow)

/-- Without excess to give up, trimming does nothing. -/
theorem trim_of_excess_le {keep : ℕ} {cost : Cost} (hkeep : keep < 2 ^ 63)
    (hle : table.excess ≤ keep) : table.trim keep cost = ⟨table, 0, []⟩ := by
  simp only [trim, signed_eq hkeep, if_pos hle]

/-- With excess to give up, trimming deletes representatives until half of it is gone. -/
theorem trim_of_lt {keep : ℕ} (cost : Cost) (hkeep : keep < 2 ^ 63) (hlt : keep < table.excess) :
    let trimmed := deleteUntil ((table.excess + keep) / 2) table 0
      (ranked cost table.extent table.clusters)
    (table.trim keep cost).table = trimmed.table ∧
      (table.trim keep cost).deleted = trimmed.deleted := by
  have htarget : table.target keep = (table.excess + keep) / 2 := by
    rw [target_of_fits (table.sumOverflows_of_lt hkeep), signed_eq hkeep]
    exact Int.tdiv_eq_ediv_of_nonneg (by omega)
  rw [trim, signed_eq hkeep, if_neg (Int.not_le.mpr hlt), htarget]
  exact ⟨rfl, rfl⟩

/-- Rows are not deleted where the excess is within the target already. -/
theorem deleteUntil_of_le {target : ℤ} (hle : table.excess ≤ target) (deleted : ℕ) (rows : List ℕ) :
    deleteUntil target table deleted rows = ⟨table, deleted⟩ := by
  cases rows with
  | nil => rfl
  | cons row rest => exact if_pos hle

/-- A trimming whose sum is too small deletes nothing. -/
theorem trim_of_overflows {keep : ℕ} (cost : Cost) (hover : table.sumOverflows keep = true) :
    (table.trim keep cost).table = table ∧ (table.trim keep cost).deleted = 0 := by
  have habove := Int.not_le.mpr (sumOverflows_iff.mp hover).1
  simp only [trim, if_neg habove, deleteUntil_of_le (excess_le_target_of_overflows hover), and_self]

/-- Trimming brings an excess above `keep` exactly half of the way down. -/
theorem Consistent.excess_trim (h : table.Consistent) {keep : ℕ} (cost : Cost)
    (hkeep : keep < 2 ^ 63) (hlt : keep < table.excess) :
    (table.trim keep cost).table.excess = (table.excess + keep) / 2 := by
  obtain ⟨hnodup, hused, hexcess⟩ := h.representatives
  have hperm := ranked_perm cost table.extent table.clusters
  rw [(trim_of_lt cost hkeep hlt).1]
  apply h.excess_deleteUntil 0 (hperm.nodup_iff.mpr hnodup)
    fun row hrow => hused row (hperm.mem_iff.mp hrow)
  · omega
  · rw [List.toFinset_eq_of_perm _ _ hperm]
    omega

/-! ## Pruning -/

/-- A round trims on the final pass only, and removes singletons on every pass. -/
theorem pruneRound_table (keep : ℕ) (final : Bool) (cost : Cost) :
    (table.pruneRound keep final cost).table =
      (if final then table.trim keep cost else ⟨table, 0, []⟩).table.removeSingletons.table := by
  unfold pruneRound
  generalize (if final then table.trim keep cost else ⟨table, 0, []⟩) = trimmed
  obtain ⟨trimmed, heavier, trimNotices⟩ := trimmed
  simp only

theorem pruneRound_table_of_final (keep : ℕ) (cost : Cost) :
    (table.pruneRound keep true cost).table =
      (table.trim keep cost).table.removeSingletons.table := by
  rw [pruneRound_table, if_pos rfl]

theorem pruneRound_table_of_not_final (keep : ℕ) (cost : Cost) :
    (table.pruneRound keep false cost).table = table.removeSingletons.table := by
  rw [pruneRound_table, if_neg Bool.false_ne_true]

/-- A round of pruning is a sequence of deletions. -/
theorem Consistent.deletes_pruneRound (h : table.Consistent) (keep : ℕ) (final : Bool)
    (cost : Cost) : Deletes table (table.pruneRound keep final cost).table := by
  cases final with
  | false =>
    rw [pruneRound_table_of_not_final]
    exact (peels_removeSingletons table).deletes
  | true =>
    rw [pruneRound_table_of_final]
    exact (h.deletes_trim keep cost).trans (peels_removeSingletons _).deletes

/-- Pruning stops after a round that deletes nothing, and goes on after any other. -/
theorem prune_table (keep : ℕ) (final : Bool) (cost : Cost) :
    (table.prune keep final cost).table =
      if (table.pruneRound keep final cost).table.liveRows = table.liveRows then
        (table.pruneRound keep final cost).table
      else ((table.pruneRound keep final cost).table.prune keep final cost).table := by
  rw [prune]
  generalize table.pruneRound keep final cost = round
  simp only
  rw [apply_ite Pruning.table]

/-- Pruning is a sequence of deletions. -/
theorem Consistent.deletes_prune (h : table.Consistent) (keep : ℕ) (final : Bool) (cost : Cost) :
    Deletes table (table.prune keep final cost).table := by
  induction hrows : table.liveRows using Nat.strongRecOn generalizing table with
  | ind rows ih =>
    have hround := h.deletes_pruneRound keep final cost
    have hle := liveRows_pruneRound_le table keep final cost
    rw [prune_table]
    split
    next hsame => exact hround
    next hless =>
      exact hround.trans (ih _ (by omega) (hround.remainder h).consistent rfl)

/-- A round that deletes nothing has not changed which rows are used. -/
theorem Remainder.usedSet_eq {after : Incidence} (hafter : Remainder table after)
    (h : table.Consistent) (hsame : after.liveRows = table.liveRows) :
    after.usedSet = table.usedSet := by
  apply Finset.eq_of_subset_of_card_le hafter.usedSet_subset
  rw [← h.liveRows_eq, ← hafter.consistent.liveRows_eq, hsame]

/-- On a pass that is not the final one pruning only removes singletons. -/
theorem Consistent.usedSet_prune_of_not_final (h : table.Consistent) (keep : ℕ) (cost : Cost) :
    (table.prune keep false cost).table.usedSet = Rows.core table.list table.usedSet := by
  induction hrows : table.liveRows using Nat.strongRecOn generalizing table with
  | ind rows ih =>
    have hle := liveRows_pruneRound_le table keep false cost
    rw [prune_table]
    rw [pruneRound_table_of_not_final] at hle ⊢
    split
    next hsame => exact h.usedSet_removeSingletons
    next hless =>
      have hremainder := h.remainder_removeSingletons
      rw [ih _ (by omega) hremainder.consistent rfl, Rows.core_congr hremainder.list_eq,
        h.usedSet_removeSingletons, Rows.core_eq_self Rows.stable_core]

/-- What pruning on the final pass ends with: a stable set of rows of the core, and the smaller one of
`keep` and the excess of the core as its excess. -/
structure Pruned (keep : ℕ) (before after : Incidence) : Prop where
  subset_core : after.usedSet ⊆ Rows.core before.list before.usedSet
  stable : Rows.Stable before.list after.usedSet
  excess_eq : after.excess = min (keep : ℤ)
    (Rows.excess before.list (Rows.core before.list before.usedSet))
  eq_core : Rows.excess before.list (Rows.core before.list before.usedSet) ≤ keep →
    after.usedSet = Rows.core before.list before.usedSet

/-- A round of the final pass that has nothing to give up arrives at the core. -/
theorem Consistent.usedSet_pruneRound_of_le (h : table.Consistent) {keep : ℕ} (cost : Cost)
    (hkeep : keep < 2 ^ 63) (hle : table.excess ≤ keep) :
    (table.pruneRound keep true cost).table.usedSet = Rows.core table.list table.usedSet := by
  rw [pruneRound_table_of_final, trim_of_excess_le hkeep hle]
  exact h.usedSet_removeSingletons

/-- A round of the final pass never takes an excess above `keep` below it. -/
theorem Consistent.keep_le_excess_pruneRound (h : table.Consistent) {keep : ℕ} (cost : Cost)
    (hkeep : keep < 2 ^ 63) (hlt : keep < table.excess) :
    keep ≤ (table.pruneRound keep true cost).table.excess := by
  have htrimmed := ((h.deletes_trim keep cost).remainder h).consistent
  have hhalf := h.excess_trim cost hkeep hlt
  have hswept := htrimmed.excess_le_removeSingletons
  rw [pruneRound_table_of_final]
  omega

/-- A round leaves a stable set of rows. -/
theorem Consistent.stable_pruneRound (h : table.Consistent) (keep : ℕ) (cost : Cost) :
    Rows.Stable table.list (table.pruneRound keep true cost).table.usedSet := by
  have htrimmed := (h.deletes_trim keep cost).remainder h
  rw [pruneRound_table_of_final]
  have hsubset := htrimmed.consistent.remainder_removeSingletons.usedSet_subset
  rw [← Rows.stable_congr fun row hrow => htrimmed.list_eq row (hsubset hrow)]
  exact htrimmed.consistent.stable_removeSingletons

/-- The excess of the used rows is at most that of their core. -/
theorem Consistent.excess_le_core (h : table.Consistent) :
    table.excess ≤ Rows.excess table.list (Rows.core table.list table.usedSet) := by
  rw [h.excess_eq]
  exact Rows.excess_le_excess_core

/-- A round of the final pass that has something to give up deletes a row. -/
theorem Consistent.liveRows_pruneRound_ne (h : table.Consistent) {keep : ℕ} {cost : Cost}
    (hkeep : keep < 2 ^ 63) (hlt : keep < table.excess) :
    (table.pruneRound keep true cost).table.liveRows ≠ table.liveRows := by
  intro hsame
  have htrimmed := (h.deletes_trim keep cost).remainder h
  have hround := htrimmed.consistent.remainder_removeSingletons
  rw [pruneRound_table_of_final] at hsame
  have hused := (htrimmed.trans hround).usedSet_eq h hsame
  have hback := hround.usedSet_subset
  rw [hused] at hback
  have hunchanged : (table.trim keep cost).table.usedSet = table.usedSet :=
    Finset.Subset.antisymm htrimmed.usedSet_subset hback
  have htrim := h.excess_trim cost hkeep hlt
  rw [htrimmed.consistent.excess_eq, Rows.excess_congr htrimmed.list_eq, hunchanged,
    ← h.excess_eq] at htrim
  omega

/-- What the rounds after a first one end with is what all rounds end with. -/
theorem Pruned.of_round {keep : ℕ} {cost : Cost} {after : Incidence} (h : table.Consistent)
    (hkeep : keep < 2 ^ 63)
    (hrest : Pruned keep (table.pruneRound keep true cost).table after) :
    Pruned keep table after := by
  have hremainder := (h.deletes_pruneRound keep true cost).remainder h
  have hstable := h.stable_pruneRound keep cost
  have hcoreRound : Rows.core (table.pruneRound keep true cost).table.list
      (table.pruneRound keep true cost).table.usedSet =
        (table.pruneRound keep true cost).table.usedSet := by
    rw [Rows.core_congr hremainder.list_eq, Rows.core_eq_self hstable]
  obtain ⟨hsubset, hstableRest, hexcessRest, hcoreRest⟩ := hrest
  rw [hcoreRound] at hsubset
  rw [hcoreRound, ← hremainder.consistent.excess_eq] at hexcessRest hcoreRest
  rw [Rows.stable_congr fun row hrow => hremainder.list_eq row (hsubset hrow)] at hstableRest
  have hinCore := hsubset.trans (Rows.subset_core hremainder.usedSet_subset hstable)
  by_cases hle : table.excess ≤ keep
  · have hcore := h.usedSet_pruneRound_of_le cost hkeep hle
    have hexcess : (table.pruneRound keep true cost).table.excess =
        Rows.excess table.list (Rows.core table.list table.usedSet) := by
      rw [hremainder.consistent.excess_eq, Rows.excess_congr hremainder.list_eq, hcore]
    rw [hexcess] at hexcessRest hcoreRest
    rw [hcore] at hcoreRest
    exact ⟨hinCore, hstableRest, hexcessRest, hcoreRest⟩
  · have hlt := Int.not_le.mp hle
    have hkeepRound := h.keep_le_excess_pruneRound cost hkeep hlt
    have hcore := h.excess_le_core
    refine ⟨hinCore, hstableRest, ?_, fun hle => absurd hle (by omega)⟩
    rw [hexcessRest, min_eq_left hkeepRound, min_eq_left (by omega)]

/-- Pruning on the final pass ends with the smaller one of the excess asked for and the excess of the
core, whatever the cost. -/
theorem Consistent.pruned (h : table.Consistent) {keep : ℕ} (cost : Cost)
    (hkeep : keep < 2 ^ 63) : Pruned keep table (table.prune keep true cost).table := by
  induction hrows : table.liveRows using Nat.strongRecOn generalizing table with
  | ind rows ih =>
    have hremainder := (h.deletes_pruneRound keep true cost).remainder h
    have hstable := h.stable_pruneRound keep cost
    have hfewer := liveRows_pruneRound_le table keep true cost
    rw [prune_table]
    split
    next hsame =>
      have hle : table.excess ≤ keep := by
        by_contra hlt
        exact h.liveRows_pruneRound_ne hkeep (Int.not_le.mp hlt) hsame
      have hcore := h.usedSet_pruneRound_of_le cost hkeep hle
      have hexcess : Rows.excess table.list (Rows.core table.list table.usedSet) =
          table.excess := by
        rw [← hcore, hremainder.usedSet_eq h hsame, h.excess_eq]
      refine ⟨hcore.subset, hstable, ?_, fun _ => hcore⟩
      rw [hremainder.consistent.excess_eq, Rows.excess_congr hremainder.list_eq, hcore, hexcess,
        min_eq_right hle]
    next hless =>
      have hrest := ih _ (by omega) hremainder.consistent rfl
      exact .of_round h hkeep hrest

/-! ## Trimming and pruning in a build -/

/-- A trimming whose sum fits ends in every build. -/
theorem ends_trimIn {keep : ℕ} (build : Build) (cost : Cost)
    (hfits : table.sumOverflows keep = false) :
    (table.trimIn build keep cost).Ends (table.trim keep cost).table
      (table.trim keep cost).deleted := by
  rw [trimIn, hfits, Bool.and_false, if_neg Bool.false_ne_true, Run.ends_afterAll, Run.ends_done]
  exact ⟨rfl, rfl⟩

theorem overflow?_of_fits {keep : ℕ} {final : Bool} (cost : Cost)
    (hfits : ∀ table : Incidence, (final && table.sumOverflows keep) = false) :
    table.overflow? keep final cost = none := by
  induction hrows : table.liveRows using Nat.strongRecOn generalizing table with
  | ind rows ih =>
    have hfewer := liveRows_pruneRound_le table keep final cost
    rw [overflow?, hfits, if_neg Bool.false_ne_true]
    simp only
    split
    next hsame => rfl
    next hless => rw [ih _ (by omega) rfl, Option.map_none]

/-- No sum of a pruning overflows for a bound below `2 ^ 63`. -/
theorem overflow?_of_lt {keep : ℕ} (hkeep : keep < 2 ^ 63) (final : Bool) (cost : Cost) :
    table.overflow? keep final cost = none :=
  overflow?_of_fits cost fun table => by rw [table.sumOverflows_of_lt hkeep, Bool.and_false]

/-- A pass that is not the final one computes no such sum. -/
theorem overflow?_of_not_final (keep : ℕ) (cost : Cost) : table.overflow? keep false cost = none :=
  overflow?_of_fits cost fun _ => Bool.false_and _

theorem ends_pruneIn {build : Build} {keep : ℕ} {final : Bool} {cost : Cost} {after : Incidence}
    {pruned : Pruning} :
    (table.pruneIn build keep final cost).Ends after pruned ↔
      (build.traps = true → table.overflow? keep final cost = none) ∧
        (table.prune keep final cost).table = after ∧ table.prune keep final cost = pruned := by
  rw [pruneIn]
  cases htraps : build.traps with
  | false => simp [Run.ends_afterAll, Run.ends_done]
  | true =>
    cases hover : table.overflow? keep final cost with
    | none => simp [Run.ends_afterAll, Run.ends_done]
    | some stopped => simp [Run.ends_afterAll, Run.not_ends_fail]

/-- A pruning with a bound below `2 ^ 63` ends in every build. -/
theorem ends_pruneIn_of_lt {keep : ℕ} (build : Build) (hkeep : keep < 2 ^ 63) (final : Bool)
    (cost : Cost) :
    (table.pruneIn build keep final cost).Ends (table.prune keep final cost).table
      (table.prune keep final cost) :=
  ends_pruneIn.mpr ⟨fun _ => overflow?_of_lt hkeep final cost, rfl, rfl⟩

/-- A pruning whose sum overflows breaks off in a table that rounds have left. -/
theorem Consistent.deletes_overflow (h : table.Consistent) {keep : ℕ} {final : Bool} {cost : Cost}
    {after : Incidence} {notices : List Notice}
    (hover : table.overflow? keep final cost = some (after, notices)) : Deletes table after := by
  induction hrows : table.liveRows using Nat.strongRecOn generalizing table notices with
  | ind rows ih =>
    have hround := h.deletes_pruneRound keep final cost
    have hfewer := liveRows_pruneRound_le table keep final cost
    rw [overflow?] at hover
    simp only at hover
    split at hover
    next =>
      cases hover
      exact .refl
    next =>
      split at hover
      next => cases hover
      next hless =>
        obtain ⟨⟨later, past⟩, hlater, hafter⟩ := Option.map_eq_some_iff.mp hover
        cases hafter
        exact hround.trans (ih _ (by omega) (hround.remainder h).consistent hlater rfl)

/-- Only a sum that overflows breaks a pruning off, and only where sums are trapped. -/
theorem fails_pruneIn {build : Build} {keep : ℕ} {final : Bool} {cost : Cost} {after : Incidence}
    {cause : Failure} :
    (table.pruneIn build keep final cost).Fails after cause ↔
      build.traps = true ∧ .breakdown = cause ∧
        ∃ notices, table.overflow? keep final cost = some (after, notices) := by
  rw [pruneIn]
  cases htraps : build.traps with
  | false => simp [Run.fails_afterAll, Run.not_fails_done]
  | true =>
    cases hover : table.overflow? keep final cost with
    | none => simp [Run.fails_afterAll, Run.not_fails_done]
    | some stopped =>
      simp only [if_true, Run.fails_afterAll, Run.fails_fail, Option.some.injEq, true_and]
      constructor
      · rintro ⟨rfl, rfl⟩
        exact ⟨rfl, stopped.2, rfl⟩
      · rintro ⟨rfl, notices, rfl⟩
        exact ⟨rfl, rfl⟩

end SieveFilter.Incidence
