import SieveFilter.Proofs.Incidence.Trimming

/-!
# Counts of deleted rows

The operations on a table tell how many rows they have deleted.  These numbers are the rows that go missing
from the used ones, and every round of a pruning but the last one deletes at least one row.
-/

namespace SieveFilter.Incidence

variable {table : Incidence}

/-- A removal of singletons deletes the rows that go missing from the count of used rows. -/
theorem usedCount_removeSingletons (table : Incidence) :
    table.removeSingletons.table.usedCount + table.removeSingletons.deleted = table.usedCount := by
  fun_induction removeSingletons table with
  | case1 table swept hresult =>
    have hcount := usedCount_sweep table
    rwa [hresult] at hcount
  | case2 table swept deleted hresult notice rest ih =>
    have hcount := usedCount_sweep table
    rw [hresult] at hcount
    simp only [rest] at hcount ih ⊢
    omega

/-- Deletions of different used rows in an order are all counted. -/
theorem usedCount_deleteUntil (target : ℤ) {rows : List ℕ} (deleted : ℕ) (hnodup : rows.Nodup)
    (hused : ∀ row ∈ rows, row ∈ table.usedSet) :
    (deleteUntil target table deleted rows).table.usedCount +
      (deleteUntil target table deleted rows).deleted = table.usedCount + deleted := by
  induction rows generalizing table deleted with
  | nil => rfl
  | cons row rest ih =>
    simp only [deleteUntil]
    split
    · rfl
    · have hone := usedCount_delete (mem_usedSet.mp (hused row List.mem_cons_self))
      have hrest := ih (deleted + 1) hnodup.of_cons (used_delete_of_nodup hnodup hused)
      omega

/-- A trimming deletes the rows that go missing from the count of used rows. -/
theorem Consistent.usedCount_trim (h : table.Consistent) (keep : ℕ) (cost : Cost) :
    (table.trim keep cost).table.usedCount + (table.trim keep cost).deleted = table.usedCount := by
  obtain ⟨hnodup, hused, -⟩ := h.representatives
  have hperm := ranked_perm cost table.extent table.clusters
  simp only [trim]
  split
  · rfl
  · exact usedCount_deleteUntil _ 0 (hperm.nodup_iff.mpr hnodup)
      fun row hrow => hused row (hperm.mem_iff.mp hrow)

/-! ## Rounds of pruning -/

/-- The rows that a pruning says it has deleted. -/
def Pruning.deleted (pruning : Pruning) : ℕ :=
  pruning.singletonRows + pruning.heavierRows

theorem Consistent.usedCount_pruneRound (h : table.Consistent) (keep : ℕ) (final : Bool)
    (cost : Cost) :
    (table.pruneRound keep final cost).table.usedCount + (table.pruneRound keep final cost).deleted =
      table.usedCount := by
  have htrimmed : (if final then table.trim keep cost else ⟨table, 0, []⟩).table.usedCount +
      (if final then table.trim keep cost else ⟨table, 0, []⟩).deleted = table.usedCount := by
    cases final with
    | false => simp only [Bool.false_eq_true, if_false, Nat.add_zero]
    | true =>
      simp only [if_true]
      exact h.usedCount_trim keep cost
  unfold pruneRound Pruning.deleted
  generalize (if final then table.trim keep cost else ⟨table, 0, []⟩) = trimmed at htrimmed ⊢
  obtain ⟨trimmed, heavier, notices⟩ := trimmed
  have hswept := usedCount_removeSingletons trimmed
  simp only at htrimmed hswept ⊢
  omega

theorem rounds_pruneRound (table : Incidence) (keep : ℕ) (final : Bool) (cost : Cost) :
    (table.pruneRound keep final cost).rounds = 1 := rfl

theorem heavierRows_pruneRound_of_not_final (table : Incidence) (keep : ℕ) (cost : Cost) :
    (table.pruneRound keep false cost).heavierRows = 0 := rfl

/-- The numbers of a pruning are those of its first round, and those of the other rounds if that round has
deleted a row. -/
theorem prune_cases (table : Incidence) (keep : ℕ) (final : Bool) (cost : Cost) :
    ((table.pruneRound keep final cost).table.liveRows = table.liveRows ∧
        table.prune keep final cost = table.pruneRound keep final cost) ∨
      (table.pruneRound keep final cost).table.liveRows < table.liveRows ∧
        (table.prune keep final cost).table =
          ((table.pruneRound keep final cost).table.prune keep final cost).table ∧
        (table.prune keep final cost).deleted =
          (table.pruneRound keep final cost).deleted +
            ((table.pruneRound keep final cost).table.prune keep final cost).deleted ∧
        (table.prune keep final cost).heavierRows =
          (table.pruneRound keep final cost).heavierRows +
            ((table.pruneRound keep final cost).table.prune keep final cost).heavierRows ∧
        (table.prune keep final cost).rounds =
          1 + ((table.pruneRound keep final cost).table.prune keep final cost).rounds := by
  have hle := liveRows_pruneRound_le table keep final cost
  have hrounds := rounds_pruneRound table keep final cost
  rw [prune]
  generalize table.pruneRound keep final cost = round at hle hrounds ⊢
  by_cases hsame : round.table.liveRows = table.liveRows
  · simp only [hsame, if_pos]
    exact .inl ⟨trivial, trivial⟩
  · simp only [hsame, if_neg, not_false_eq_true]
    refine .inr ⟨by omega, trivial, ?_, trivial, by rw [hrounds]⟩
    simp only [Pruning.deleted]
    omega

end SieveFilter.Incidence
