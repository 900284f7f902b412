import SieveFilter.Proofs.Incidence.Components
import SieveFilter.Proofs.Incidence.Losses
import SieveFilter.Proofs.Incidence.Operations

/-!
# How far the excess can fall

The bound that trimming is given is read as a signed number, and neither trimming nor pruning takes an excess
that is above this number below it.  For bounds under `2 ^ 63` this is the bound itself.  A larger bound reads
as a negative number, which the excess of no remainder may come near to; the final pruning then goes on until
no row is left, although the excess was below the bound from the start.  Just above `2 ^ 63` a negative excess
has a sum with the bound that is out of range; nothing is deleted then.
-/

namespace SieveFilter.Incidence

variable {table : Incidence} {keep : ℕ} {cost : Cost}

/-- From `2 ^ 63` on, counts of 64 bits read as negative numbers. -/
theorem signed_eq_sub (hlarge : 2 ^ 63 ≤ keep) (hword : keep < 2 ^ 64) :
    signed keep = keep - 2 ^ 64 := by
  have hwrap : signed keep = Int.bmod keep (2 ^ 64) := congrArg (Int.bmod keep) Nat.pow_eq
  rw [hwrap, ← Int.sub_bmod_right]
  apply Int.bmod_eq_of_le
  · omega
  · omega

/-- Half of a number, the fraction dropped. -/
theorem two_mul_tdiv_two (n : ℤ) : n - 1 ≤ 2 * n.tdiv 2 ∧ 2 * n.tdiv 2 ≤ n + 1 := by
  have hrest := Int.tmod_two_eq n
  have hhalf := Int.mul_tdiv_add_tmod n 2
  omega

/-! ## No excess falls below the limit -/

/-- Deletions until the excess is down to a target do not take it below the target. -/
theorem Consistent.le_excess_deleteUntil (h : table.Consistent) {target : ℤ} {rows : List ℕ}
    (deleted : ℕ) (hnodup : rows.Nodup) (hused : ∀ row ∈ rows, row ∈ table.usedSet)
    (habove : target ≤ table.excess) :
    target ≤ (deleteUntil target table deleted rows).table.excess := by
  induction rows generalizing table deleted with
  | nil => exact habove
  | cons row rest ih =>
    have hrow := hused row List.mem_cons_self
    simp only [deleteUntil]
    split
    next hstop => exact habove
    next hgo =>
      apply ih (h.delete hrow) (deleted + 1) hnodup.of_cons (used_delete_of_nodup hnodup hused)
      have hstep := Rows.excess_erase_ge table.list hrow
      rw [← h.excess_delete hrow, ← h.excess_eq] at hstep
      omega

theorem trim_of_excess_le_signed (hle : table.excess ≤ signed keep) :
    table.trim keep cost = ⟨table, 0, []⟩ := by
  simp only [trim, if_pos hle]

/-- Above the limit, trimming deletes representatives of clusters until it is down to the target. -/
theorem trim_of_signed_lt (hlt : signed keep < table.excess) :
    (table.trim keep cost).table =
      (deleteUntil (table.target keep) table 0 (ranked cost table.extent table.clusters)).table := by
  rw [trim, if_neg (Int.not_le.mpr hlt)]

theorem Consistent.min_le_excess_trim (h : table.Consistent) (keep : ℕ) (cost : Cost) :
    min table.excess (signed keep) ≤ (table.trim keep cost).table.excess := by
  rcases Int.lt_or_le (signed keep) table.excess with hlt | hle
  swap
  · rw [trim_of_excess_le_signed hle]
    exact min_le_left _ _
  cases hover : table.sumOverflows keep with
  | true =>
    rw [(trim_of_overflows cost hover).1]
    exact min_le_left _ _
  | false =>
    obtain ⟨hnodup, hused, -⟩ := h.representatives
    have hperm := ranked_perm cost table.extent table.clusters
    obtain ⟨hlow, hhigh⟩ := two_mul_tdiv_two (table.excess + signed keep)
    rw [← target_of_fits hover] at hlow hhigh
    have hstops : table.target keep ≤ (table.trim keep cost).table.excess := by
      rw [trim_of_signed_lt hlt]
      exact h.le_excess_deleteUntil 0 (hperm.nodup_iff.mpr hnodup)
        (fun row hrow => hused row (hperm.mem_iff.mp hrow)) (by omega)
    omega

/-- A round of the final pass does not take the excess below the limit. -/
theorem Consistent.min_le_excess_pruneRound (h : table.Consistent) (keep : ℕ) (cost : Cost) :
    min table.excess (signed keep) ≤ (table.pruneRound keep true cost).table.excess := by
  have htrimmed := ((h.deletes_trim keep cost).remainder h).consistent
  rw [pruneRound_table_of_final]
  exact (h.min_le_excess_trim keep cost).trans htrimmed.excess_le_removeSingletons

theorem Consistent.min_le_excess_prune (h : table.Consistent) (keep : ℕ) (cost : Cost) :
    min table.excess (signed keep) ≤ (table.prune keep true cost).table.excess := by
  induction hrows : table.liveRows using Nat.strongRecOn generalizing table with
  | ind rows ih =>
    have hround := h.min_le_excess_pruneRound keep cost
    have hremainder := (h.deletes_pruneRound keep true cost).remainder h
    have hfewer := liveRows_pruneRound_le table keep true cost
    rw [prune_table]
    split
    next hsame => exact hround
    next hless =>
      have hrest := ih _ (by omega) hremainder.consistent rfl
      exact (le_min hround (min_le_right _ _)).trans hrest

/-! ## A limit that no excess comes near to -/

/-- The rows that are left refer to no more ideals than there were. -/
theorem Remainder.liveIdeals_le {after : Incidence} (hafter : Remainder table after)
    (h : table.Consistent) : after.liveIdeals ≤ table.liveIdeals := by
  rw [hafter.consistent.liveIdeals_eq, h.liveIdeals_eq, hafter.consistent.liveSlots_eq, h.liveSlots_eq,
    Rows.referenced_congr hafter.list_eq]
  exact Finset.card_le_card (Rows.referenced_mono hafter.usedSet_subset)

/-- Deletions in an order begin with its first row if the excess is above the target. -/
theorem liveRows_deleteUntil_lt {target : ℤ} {rows : List ℕ} (deleted : ℕ) (hsome : rows ≠ [])
    (habove : target < table.excess) (hpos : 0 < table.liveRows) :
    (deleteUntil target table deleted rows).table.liveRows < table.liveRows := by
  cases rows with
  | nil => exact absurd rfl hsome
  | cons row rest =>
    have hle := liveRows_deleteUntil_le target (table.delete row) (deleted + 1) rest
    rw [delete_liveRows] at hle
    rw [deleteUntil, if_neg (Int.not_le.mpr habove)]
    omega

/-- No sum is too small if there are few ideals; a table without rows has none. -/
theorem Consistent.sumOverflows_of_few (h : table.Consistent) (hword : keep < 2 ^ 64)
    (hfew : 2 ^ 63 + table.liveIdeals ≤ keep + 1) : table.sumOverflows keep = false := by
  rcases Nat.lt_or_ge keep (2 ^ 63) with hsmall | hlarge
  · exact table.sumOverflows_of_lt hsmall
  have hexcess : table.excess = table.liveRows - table.liveIdeals := rfl
  have hnone : table.liveRows = 0 → table.liveIdeals = 0 := by
    intro hrows
    rw [h.liveRows_eq, Finset.card_eq_zero] at hrows
    rw [h.liveIdeals_eq, h.liveSlots_eq, hrows]
    rfl
  rw [Bool.eq_false_iff, ne_eq, sumOverflows_iff, signed_eq_sub hlarge hword]
  omega

/-- Well above the limit, trimming deletes a row if there is one. -/
theorem Consistent.liveRows_trim_lt (h : table.Consistent) (hpos : 0 < table.liveRows)
    (hfits : table.sumOverflows keep = false) (hfar : signed keep + 2 ≤ table.excess) :
    (table.trim keep cost).table.liveRows < table.liveRows := by
  have hlive := h.liveRows_eq
  obtain ⟨row, hrow⟩ := Finset.card_pos.mp (hlive ▸ hpos)
  obtain ⟨representative, ⟨hmem, -⟩, -⟩ := h.existsUnique_representative hrow
  have hperm := ranked_perm cost table.extent table.clusters
  have hsome : ranked cost table.extent table.clusters ≠ [] :=
    List.ne_nil_of_mem (hperm.mem_iff.mpr hmem)
  obtain ⟨-, hhigh⟩ := two_mul_tdiv_two (table.excess + signed keep)
  rw [← target_of_fits hfits] at hhigh
  rw [trim_of_signed_lt (by omega)]
  exact liveRows_deleteUntil_lt 0 hsome (by omega) hpos

/-- If there are few ideals, and no excess comes near to the limit, the final pruning leaves no row. -/
theorem Consistent.usedSet_prune_of_far (h : table.Consistent) (hword : keep < 2 ^ 64)
    (hfew : 2 ^ 63 + table.liveIdeals ≤ keep + 1) (hfar : signed keep + 2 + table.liveIdeals ≤ 0) :
    (table.prune keep true cost).table.usedSet = ∅ := by
  induction hrows : table.liveRows using Nat.strongRecOn generalizing table with
  | ind rows ih =>
    have hremainder := (h.deletes_pruneRound keep true cost).remainder h
    have hfewer := liveRows_pruneRound_le table keep true cost
    have hideals := hremainder.liveIdeals_le h
    rw [prune_table]
    split
    next hsame =>
      have hnone : table.liveRows = 0 := by
        by_contra hpos
        have hexcess : table.excess = table.liveRows - table.liveIdeals := rfl
        have hless : (table.trim keep cost).table.liveRows < table.liveRows :=
          h.liveRows_trim_lt (Nat.pos_of_ne_zero hpos) (h.sumOverflows_of_few hword hfew) (by omega)
        have hswept := liveRows_removeSingletons_le (table.trim keep cost).table
        rw [pruneRound_table_of_final] at hsame
        omega
      rw [← Finset.card_eq_zero, ← hremainder.consistent.liveRows_eq, hsame, hnone]
    next hless => exact ih _ (by omega) hremainder.consistent (by omega) (by omega) rfl

/-- If there are few ideals, no sum on the way is too small. -/
theorem Consistent.overflow?_of_few (h : table.Consistent) (hword : keep < 2 ^ 64)
    (hfew : 2 ^ 63 + table.liveIdeals ≤ keep + 1) (final : Bool) :
    table.overflow? keep final cost = none := by
  induction hrows : table.liveRows using Nat.strongRecOn generalizing table with
  | ind rows ih =>
    have hremainder := (h.deletes_pruneRound keep final cost).remainder h
    have hfewer := liveRows_pruneRound_le table keep final cost
    have hideals := hremainder.liveIdeals_le h
    rw [overflow?, h.sumOverflows_of_few hword hfew, Bool.and_false, if_neg Bool.false_ne_true]
    simp only
    split
    next hsame => rfl
    next hless => rw [ih _ (by omega) hremainder.consistent (by omega) rfl, Option.map_none]

/-! ## The bound as it is read -/

theorem trimIn_of_excess_le_signed (build : Build) (hle : table.excess ≤ signed keep) :
    table.trimIn build keep cost = .done table 0 := by
  have hfits : table.sumOverflows keep = false := by
    rw [Bool.eq_false_iff, ne_eq, sumOverflows_iff]
    omega
  rw [trimIn, hfits, Bool.and_false, if_neg Bool.false_ne_true, trim_of_excess_le_signed hle]
  rfl

/-- Where the sum is too small, a trimming breaks off, or deletes nothing if sums are not trapped. -/
theorem trimIn_of_overflows (build : Build) (hover : table.sumOverflows keep = true) :
    (build.traps = true → (table.trimIn build keep cost).Fails table .breakdown) ∧
      (build.traps = false → (table.trimIn build keep cost).Ends table 0) := by
  rw [trimIn, hover, Bool.and_true]
  constructor
  · intro htraps
    rw [if_pos htraps, Run.fails_after, Run.fails_fail]
    exact ⟨rfl, rfl⟩
  · intro htraps
    rw [htraps, if_neg Bool.false_ne_true, Run.ends_afterAll, Run.ends_done]
    exact trim_of_overflows cost hover

/-- For bounds below `2 ^ 63`, in every build, trimming a consistent table whose excess is within the bound
changes nothing, and the final pruning ends with an excess that is not below the smaller one of the bound and
what it was before.  From `2 ^ 63` on the bound less `2 ^ 64` counts in place of the bound.  Where that is below
every excess that can come up, the final pruning deletes all rows, provided that its sums with all these
excesses are in range; a trimming whose sum is out of range breaks off or deletes nothing. -/
theorem prune_stays_above_signed (h : table.Consistent) (hword : keep < 2 ^ 64) (build : Build)
    (cost : Cost) :
    (keep < 2 ^ 63 →
      (table.excess ≤ keep → table.trimIn build keep cost = .done table 0) ∧
        ∃ after pruned, (table.pruneIn build keep true cost).Ends after pruned ∧
          min table.excess keep ≤ after.excess) ∧
    (2 ^ 63 ≤ keep →
      (table.excess ≤ keep - 2 ^ 64 → table.trimIn build keep cost = .done table 0) ∧
        (∀ after pruned, (table.pruneIn build keep true cost).Ends after pruned →
          min table.excess (keep - 2 ^ 64) ≤ after.excess) ∧
        (2 ^ 63 + table.liveIdeals ≤ keep + 1 → keep + table.liveIdeals + 2 ≤ 2 ^ 64 →
          ∃ after pruned, (table.pruneIn build keep true cost).Ends after pruned ∧
            after.usedSet = ∅) ∧
        (keep - 2 ^ 64 < table.excess → table.excess + keep < 2 ^ 63 →
          (build.traps = true → (table.trimIn build keep cost).Fails table .breakdown) ∧
            (build.traps = false → (table.trimIn build keep cost).Ends table 0))) := by
  have hprune := h.min_le_excess_prune keep cost
  constructor
  · intro hsmall
    rw [signed_eq hsmall] at hprune
    exact ⟨fun hle => trimIn_of_excess_le_signed build (by rwa [signed_eq hsmall]), _, _,
      ends_pruneIn_of_lt build hsmall true cost, hprune⟩
  · intro hlarge
    have hsigned := signed_eq_sub hlarge hword
    rw [hsigned] at hprune
    refine ⟨fun hle => trimIn_of_excess_le_signed build (by rwa [hsigned]), ?_, ?_, ?_⟩
    · intro after pruned hends
      obtain ⟨-, rfl, -⟩ := ends_pruneIn.mp hends
      exact hprune
    · intro hfew hfar
      refine ⟨_, _, ends_pruneIn.mpr ⟨fun _ => h.overflow?_of_few hword hfew true, rfl, rfl⟩, ?_⟩
      exact h.usedSet_prune_of_far hword hfew (by omega)
    · intro hlt hsum
      exact trimIn_of_overflows build (sumOverflows_iff.mpr (by omega))

/-- Three rows that refer to one ideal. -/
def sampleTriple : Incidence :=
  (new 3 64).execute [.register 0 [⟨97, 0⟩], .register 1 [⟨97, 0⟩], .register 2 [⟨97, 0⟩]]

theorem prune_stays_above_signed_sample :
    sampleTriple.Consistent ∧ 2 ^ 63 < 2 ^ 64 ∧
      ∃ after pruned, (sampleTriple.pruneIn .checked (2 ^ 63) true Cost.rowFraction).Ends after pruned ∧
        after.usedSet = ∅ := by
  have hconsistent : sampleTriple.Consistent := by decide +kernel
  have hword : 2 ^ 63 < 2 ^ 64 := by decide
  have hideals : sampleTriple.liveIdeals = 1 := by decide +kernel
  obtain ⟨-, hlarge⟩ := prune_stays_above_signed hconsistent hword .checked Cost.rowFraction
  exact ⟨hconsistent, hword, (hlarge (le_refl _)).2.2.1 (by omega) (by omega)⟩

/-- The excess of three rows with one ideal is below `2 ^ 63`, and yet trimming to that bound deletes rows, and
the final pruning ends below the excess that there was, whatever the build. -/
theorem trim_within_keep_deletes :
    sampleTriple.Consistent ∧ sampleTriple.excess = 2 ∧ ∀ build : Build,
      (∃ after deleted,
        (sampleTriple.trimIn build (2 ^ 63) Cost.rowFraction).Ends after deleted ∧ deleted ≠ 0) ∧
      ∃ after pruned, (sampleTriple.pruneIn build (2 ^ 63) true Cost.rowFraction).Ends after pruned ∧
        after.excess < min sampleTriple.excess (2 ^ 63) := by
  have hconsistent : sampleTriple.Consistent := by decide +kernel
  have hexcess : sampleTriple.excess = 2 := by decide +kernel
  have hideals : sampleTriple.liveIdeals = 1 := by decide +kernel
  have hrows : sampleTriple.liveRows = 3 := by decide +kernel
  have hword : 2 ^ 63 < 2 ^ 64 := by decide
  have hsigned : signed (2 ^ 63) = (2 ^ 63 : ℕ) - 2 ^ 64 := signed_eq_sub (le_refl _) hword
  have hfits : sampleTriple.sumOverflows (2 ^ 63) = false :=
    hconsistent.sumOverflows_of_few hword (by omega)
  refine ⟨hconsistent, hexcess, fun build => ⟨?_, ?_⟩⟩
  · have hless : (sampleTriple.trim (2 ^ 63) Cost.rowFraction).table.liveRows < sampleTriple.liveRows :=
      hconsistent.liveRows_trim_lt (by omega) hfits (by omega)
    have hafter := (hconsistent.deletes_trim (2 ^ 63) Cost.rowFraction).remainder hconsistent
    have hcount := hconsistent.usedCount_trim (2 ^ 63) Cost.rowFraction
    rw [usedCount_eq_card, usedCount_eq_card, ← hafter.consistent.liveRows_eq,
      ← hconsistent.liveRows_eq] at hcount
    exact ⟨_, _, ends_trimIn build _ hfits, by omega⟩
  · have hempty : (sampleTriple.prune (2 ^ 63) true Cost.rowFraction).table.usedSet = ∅ :=
      hconsistent.usedSet_prune_of_far hword (by omega) (by omega)
    have hafter := (hconsistent.deletes_prune (2 ^ 63) true Cost.rowFraction).remainder hconsistent
    refine ⟨_, _, ends_pruneIn.mpr
      ⟨fun _ => hconsistent.overflow?_of_few hword (by omega) true, rfl, rfl⟩, ?_⟩
    rw [hafter.consistent.excess_eq, hempty, hexcess]
    decide

end SieveFilter.Incidence
