import SieveFilter.Proofs.Incidence.Components
import SieveFilter.Proofs.Incidence.Losses
import SieveFilter.Proofs.Incidence.Operations

/-!
# Which rows a trimming deletes

A trimming goes through the clusters by falling cost, of equal costs the one whose least row comes first, and
deletes the least row of each until the excess is half of the way down.  What it deletes is the shortest
beginning of that order that gets there; no two of the deleted rows are connected.
-/

namespace SieveFilter.Incidence

variable {table : Incidence}

/-! ## The order of the clusters -/

/-- A stable sort keeps the order of the list among entries that may stand in either order. -/
theorem pairwise_mergeSort_stable {α : Type*} {le : α → α → Bool} {before : α → α → Prop}
    (trans : ∀ a b c, le a b = true → le b c = true → le a c = true)
    (total : ∀ a b, (le a b || le b a) = true) {entries : List α} (h : entries.Pairwise before) :
    (entries.mergeSort le).Pairwise fun a b => le a b = true ∧ (le b a = true → before a b) := by
  induction h with
  | nil => simp
  | @cons a rest hfirst _ ih =>
    obtain ⟨front, back, hsort, hrest, hstrict⟩ := List.mergeSort_cons trans total a rest
    have hsorted := List.pairwise_mergeSort trans total (a :: rest)
    have hlater : ∀ b ∈ back, before a b := by
      intro b hb
      have hmem : b ∈ rest.mergeSort le := hrest ▸ List.mem_append_right front hb
      exact hfirst b (List.mem_mergeSort.mp hmem)
    rw [hrest, List.pairwise_append] at ih
    rw [hsort, List.pairwise_append, List.pairwise_cons] at hsorted
    rw [hsort, List.pairwise_append, List.pairwise_cons]
    obtain ⟨hfront, hback, hcross⟩ := ih
    obtain ⟨-, ⟨hafter, -⟩, hahead⟩ := hsorted
    refine ⟨hfront, ⟨fun b hb => ⟨hafter b hb, fun _ => hlater b hb⟩, hback⟩, ?_⟩
    intro b hb c hc
    rcases List.mem_cons.mp hc with rfl | hc
    · have hnot : le c b = false := by simpa using hstrict b hb
      exact ⟨hahead b hb c List.mem_cons_self, fun hle => absurd hle (by simp [hnot])⟩
    · exact hcross b hb c hc

/-- One cluster is given up before another: its cost is higher, or the costs are equal and its least row comes
first. -/
def GoesBefore (cost : Cost) (extent : Extent) (first second : Cluster) : Prop :=
  Decimal.orderKey (cost second extent) < Decimal.orderKey (cost first extent) ∨
    Decimal.orderKey (cost first extent) = Decimal.orderKey (cost second extent) ∧
      first.representative < second.representative

/-- Ranking goes through the representatives of the clusters in the order in which these are given up. -/
theorem Consistent.exists_order (h : table.Consistent) (cost : Cost) :
    ∃ order : List Cluster, order.Perm table.clusters ∧
      order.Pairwise (GoesBefore cost table.extent) ∧
      ranked cost table.extent table.clusters = order.map Cluster.representative := by
  let key (cluster : Cluster) : ℤ := Decimal.orderKey (cost cluster table.extent)
  let le (first second : Cluster) : Bool := key second ≤ key first
  refine ⟨table.clusters.mergeSort le, List.mergeSort_perm _ le, ?_, ?_⟩
  · have htrans : ∀ a b c, le a b = true → le b c = true → le a c = true := by
      simp only [le, decide_eq_true_eq]
      omega
    have htotal : ∀ a b, (le a b || le b a) = true := by
      simp only [le, Bool.or_eq_true, decide_eq_true_eq]
      omega
    refine (pairwise_mergeSort_stable htrans htotal h.pairwise_representative_lt).imp ?_
    rintro first second ⟨hle, htie⟩
    have hle : key second ≤ key first := of_decide_eq_true hle
    rcases hle.lt_or_eq with hlt | heq
    · exact .inl hlt
    · exact .inr ⟨heq.symm, htie (decide_eq_true heq.ge)⟩
  · have hscored := List.map_mergeSort (r := le) (s := fun a b => b.1 ≤ a.1)
      (f := fun c => (key c, c.representative)) (l := table.clusters) fun _ _ _ _ => rfl
    rw [ranked, ← hscored, List.map_map]
    rfl

/-! ## The deleted rows -/

/-- Deletions in an order until the excess is down to a target delete the shortest beginning of the order that
gets there, or the whole order. -/
theorem Consistent.deleteUntil_shortest (h : table.Consistent) (target : ℤ) {rows : List ℕ}
    (deleted : ℕ) (hnodup : rows.Nodup) (hused : ∀ row ∈ rows, row ∈ table.usedSet) :
    ∃ n ≤ rows.length, (deleteUntil target table deleted rows).deleted = deleted + n ∧
      (deleteUntil target table deleted rows).table.usedSet =
        table.usedSet \ (rows.take n).toFinset ∧
      ∀ m < n, target < Rows.excess table.list (table.usedSet \ (rows.take m).toFinset) := by
  induction rows generalizing table deleted with
  | nil => exact ⟨0, le_refl 0, rfl, by simp [deleteUntil], fun m hm => absurd hm m.not_lt_zero⟩
  | cons row rest ih =>
    have hrow := hused row List.mem_cons_self
    simp only [deleteUntil]
    split
    next hstop => exact ⟨0, Nat.zero_le _, rfl, by simp, fun m hm => absurd hm m.not_lt_zero⟩
    next hgo =>
      obtain ⟨n, hn, hcount, hset, habove⟩ :=
        ih (h.delete hrow) (deleted + 1) hnodup.of_cons (used_delete_of_nodup hnodup hused)
      refine ⟨n + 1, Nat.succ_le_succ hn, by omega, ?_, ?_⟩
      · rw [hset, usedSet_delete, List.take_succ_cons, List.toFinset_cons, Finset.sdiff_insert,
          Finset.erase_sdiff_comm]
      · intro m hm
        cases m with
        | zero =>
          rw [h.excess_eq] at hgo
          simpa using hgo
        | succ m =>
          rw [List.take_succ_cons, List.toFinset_cons, ← h.excess_delete_sdiff hrow]
          exact habove m (Nat.lt_of_succ_lt_succ hm)

/-- Trimming a consistent table whose excess is above `keep` ends with the excess exactly half of the way
down, in every build.  The rows that it deletes are the first ones of the representatives of its clusters, the
clusters taken by falling cost and equal costs by increasing representative; with fewer of them the excess
would be above the target.  Every used row is connected to exactly one representative, so no component loses
two of them. -/
theorem trim_halves (h : table.Consistent) {keep : ℕ} (hkeep : keep < 2 ^ 63)
    (habove : keep < table.excess) (cost : Cost) :
    let trimmed := table.trim keep cost
    let target := (table.excess + keep) / 2
    (∀ build, (table.trimIn build keep cost).Ends trimmed.table trimmed.deleted) ∧
      trimmed.table.excess = target ∧
      ∃ order : List Cluster, order.Perm table.clusters ∧
        order.Pairwise (GoesBefore cost table.extent) ∧
        let rows := order.map Cluster.representative
        trimmed.deleted ≤ rows.length ∧
          trimmed.table.usedSet = table.usedSet \ (rows.take trimmed.deleted).toFinset ∧
          Rows.excess table.list trimmed.table.usedSet = target ∧
          (∀ m < trimmed.deleted,
            target < Rows.excess table.list (table.usedSet \ (rows.take m).toFinset)) ∧
          rows.Nodup ∧ (∀ row ∈ rows, row ∈ table.usedSet) ∧
          ∀ row ∈ table.usedSet, ∃! representative,
            representative ∈ rows ∧ table.Connected representative row := by
  have hexcess := h.excess_trim cost hkeep habove
  have hremainder := (h.deletes_trim keep cost).remainder h
  obtain ⟨order, hperm, hpairwise, hranked⟩ := h.exists_order cost
  have hrows := hperm.map Cluster.representative
  obtain ⟨hnodup, hused, -⟩ := h.representatives
  rw [← hrows.nodup_iff] at hnodup
  simp only [← hrows.mem_iff] at hused
  obtain ⟨htable, hdeleted⟩ := trim_of_lt cost hkeep habove
  rw [hranked] at htable hdeleted
  obtain ⟨n, hn, hcount, hset, hshortest⟩ :=
    h.deleteUntil_shortest ((table.excess + keep) / 2) 0 hnodup hused
  rw [← hdeleted, Nat.zero_add] at hcount
  rw [← htable] at hset
  subst hcount
  refine ⟨fun build => ends_trimIn build cost (table.sumOverflows_of_lt hkeep), hexcess, order, hperm,
    hpairwise, hn, hset, ?_, hshortest, hnodup, hused, ?_⟩
  · rw [← hexcess, hremainder.consistent.excess_eq, Rows.excess_congr hremainder.list_eq]
  · intro row hrow
    simp only [hrows.mem_iff]
    exact h.existsUnique_representative hrow

/-- Rows that all refer to one ideal; three of them are linked in a chain, and two others to each other. -/
def sampleLinks : Incidence :=
  (new 7 64).execute
    [.register 0 [⟨3, 0⟩, ⟨5, 0⟩], .register 1 [⟨3, 0⟩, ⟨5, 0⟩, ⟨7, 0⟩], .register 2 [⟨3, 0⟩, ⟨7, 0⟩],
      .register 3 [⟨3, 0⟩], .register 4 [⟨3, 0⟩, ⟨11, 0⟩], .register 5 [⟨3, 0⟩, ⟨11, 0⟩],
      .register 6 [⟨3, 0⟩]]

/-- Of an excess of `3`, half of what is above `1` is given up. -/
theorem trim_halves_sample :
    sampleLinks.Consistent ∧ 1 < 2 ^ 63 ∧ 1 < sampleLinks.excess ∧
      (sampleLinks.trim 1 Cost.weightFraction).table.excess = 2 := by
  have hconsistent : sampleLinks.Consistent := by decide +kernel
  have hkeep : 1 < 2 ^ 63 := by decide
  have hexcess : sampleLinks.excess = 3 := by decide +kernel
  have habove : (1 : ℕ) < sampleLinks.excess := by rw [hexcess]; decide
  refine ⟨hconsistent, hkeep, habove, ?_⟩
  rw [(trim_halves hconsistent hkeep habove Cost.weightFraction).2.1, hexcess]
  rfl

end SieveFilter.Incidence
