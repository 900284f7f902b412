import SieveFilter.Incidence.Cluster
import SieveFilter.Proofs.Incidence.Consistency
import SieveFilter.Proofs.Support.Forest
import SieveFilter.Proofs.Support.Tallies

/-!
# Walks along links

The sum of row numbers that is kept for a slot with two references gives for each of its rows the other
one.  The walk that finds the clusters therefore follows links only, so it grows a forest in the sense of
`Rows.Grows`: every row that it finds is a representative or is linked to a row found before.
-/

namespace SieveFilter.Incidence

/-! ## Pair sums -/

variable {table : Incidence}

/-- The pair sum of a slot with two references is the sum of its row numbers. -/
theorem Consistent.getD_pairSums (h : table.Consistent) {slot : ℕ} (htwo : table.count slot = 2) :
    table.pairSums.getD slot 0 = Rows.rowSum table.list table.usedSet slot := by
  have hslot : slot < table.roster.size := by
    rw [← h.values_size]
    apply Roster.lt_size_of_value_ne_zero
    simp only [count] at htwo
    omega
  have hsums : table.pairSums.getD slot 0 = (Array.replicate table.roster.size 0).getD slot 0 +
      (table.usedRows.map fun row => (table.list row).count slot • row).sum :=
    getD_foldl_tally (fun slot => table.count slot = 2) htwo table.list id table.usedRows
      (by simpa using hslot)
  rw [hsums, Rows.rowSum, ← toFinset_usedRows, List.sum_toFinset _ (nodup_usedRows table)]
  simp [hslot]

/-- The rows linked to `row` share a slot of two references with it. -/
theorem Consistent.exists_slot_of_mem_links (h : table.Consistent) {row other : ℕ}
    (hrow : row ∈ table.usedSet) (hother : other ∈ table.links table.pairSums row) :
    ∃ slot ∈ table.list row, Rows.references table.list table.usedSet slot = 2 ∧
      other ∈ table.usedSet ∧ slot ∈ table.list other := by
  obtain ⟨slot, hslot, rfl⟩ := List.mem_map.mp hother
  obtain ⟨hmem, htwo⟩ := List.mem_filter.mp hslot
  have htwo : table.count slot = 2 := by simpa using htwo
  have hreferences : Rows.references table.list table.usedSet slot = 2 := by
    have hcount := h.count_eq slot
    omega
  obtain ⟨other, hused, hlisted, hsum⟩ := Rows.exists_partner hrow hmem hreferences
  refine ⟨slot, hmem, hreferences, ?_⟩
  have hpartner : partner table.pairSums slot row = other := by
    rw [partner, h.getD_pairSums htwo, hsum]
    omega
  rw [hpartner]
  exact ⟨hused, hlisted⟩

/-! ## Walks -/

section Walk

variable {κ : Type*} [DecidableEq κ] {rows : ℕ → List κ} {S : Finset ℕ} {links : ℕ → List ℕ}

/-- Links lead from rows of `S` to rows of `S` that share an entry of two references with them. -/
def LinksWithin (rows : ℕ → List κ) (S : Finset ℕ) (links : ℕ → List ℕ) : Prop :=
  ∀ row ∈ S, ∀ other ∈ links row, ∃ k ∈ rows row,
    Rows.references rows S k = 2 ∧ other ∈ S ∧ k ∈ rows other

/-- The rows seen so far were found by a walk from `roots`, and the pending rows are among them. -/
structure Frontier.Grown (rows : ℕ → List κ) (S roots : Finset ℕ) (frontier : Frontier) : Prop where
  grows : Rows.Grows rows S (S \ marked frontier.unseen) roots
  unseen_subset : marked frontier.unseen ⊆ S
  pending_seen : ∀ row ∈ frontier.pending, row ∈ S \ marked frontier.unseen

namespace Frontier

variable {roots : Finset ℕ} {frontier : Frontier}

/-- Seeing a row takes at most that row out of the unseen ones. -/
theorem marked_see_subset (frontier : Frontier) (row : ℕ) :
    marked (frontier.see row).unseen ⊆ marked frontier.unseen := by
  obtain ⟨unseen, pending⟩ := frontier
  simp only [see]
  split
  · rw [marked_setIfInBounds]
    exact Finset.erase_subset _ _
  · exact Finset.Subset.refl _

theorem marked_foldl_see_subset (frontier : Frontier) (others : List ℕ) :
    marked (others.foldl see frontier).unseen ⊆ marked frontier.unseen := by
  induction others generalizing frontier with
  | nil => exact Finset.Subset.refl _
  | cons other rest ih => exact (ih _).trans (marked_see_subset frontier other)

/-- Seeing a row that is linked to a seen one keeps the forest growing. -/
theorem Grown.see_link (h : frontier.Grown rows S roots) {row other : ℕ} {k : κ}
    (hrow : row ∈ S \ marked frontier.unseen) (hk : k ∈ rows row)
    (htwo : Rows.references rows S k = 2) (hother : other ∈ S) (hk' : k ∈ rows other) :
    (frontier.see other).Grown rows S roots := by
  obtain ⟨unseen, pending⟩ := frontier
  simp only [see]
  split
  next hmark =>
    have hunseen : other ∈ marked unseen := mem_marked.mpr hmark
    have hfound : S \ marked (unseen.setIfInBounds other false) =
        insert other (S \ marked unseen) := by
      rw [marked_setIfInBounds, Finset.sdiff_erase hother]
    have hnew : other ∉ S \ marked unseen :=
      fun hmem => (Finset.mem_sdiff.mp hmem).2 hunseen
    refine ⟨?_, ?_, ?_⟩
    · rw [hfound]
      exact .link h.grows hrow hk htwo hother hk' hnew
    · rw [marked_setIfInBounds]
      exact (Finset.erase_subset _ _).trans h.unseen_subset
    · intro next hnext
      rw [hfound]
      rcases List.mem_cons.mp hnext with rfl | hnext
      · exact Finset.mem_insert_self _ _
      · exact Finset.mem_insert_of_mem (h.pending_seen next hnext)
  next => exact h

theorem Grown.foldl_see (hlinks : LinksWithin rows S links) (h : frontier.Grown rows S roots)
    {row : ℕ} (hrow : row ∈ S \ marked frontier.unseen) {others : List ℕ}
    (hothers : ∀ other ∈ others, other ∈ links row) :
    (others.foldl see frontier).Grown rows S roots := by
  induction others generalizing frontier with
  | nil => exact h
  | cons other rest ih =>
    obtain ⟨k, hk, htwo, hother, hk'⟩ :=
      hlinks row (Finset.mem_sdiff.mp hrow).1 other (hothers other List.mem_cons_self)
    refine ih (h.see_link hrow hk htwo hother hk') ?_ fun next hnext =>
      hothers next (List.mem_cons_of_mem _ hnext)
    have hmono := marked_see_subset frontier other
    exact Finset.mem_sdiff.mpr ⟨(Finset.mem_sdiff.mp hrow).1,
      fun hmem => (Finset.mem_sdiff.mp hrow).2 (hmono hmem)⟩

end Frontier

/-- Following rows takes rows out of the unseen ones and brings none back. -/
theorem marked_follow_subset (links : ℕ → List ℕ) (frontier : Frontier) (followed : List ℕ) :
    marked (follow links frontier followed).1 ⊆ marked frontier.unseen := by
  fun_induction follow links frontier followed with
  | case1 followed unseen => exact Finset.Subset.refl _
  | case2 followed unseen row pending ih =>
    exact ih.trans (Frontier.marked_foldl_see_subset ⟨unseen, pending⟩ (links row))

/-- Following the pending rows keeps the forest growing, from the same roots. -/
theorem grows_follow {roots : Finset ℕ} (hlinks : LinksWithin rows S links) {frontier : Frontier}
    (h : frontier.Grown rows S roots) (followed : List ℕ) :
    Rows.Grows rows S (S \ marked (follow links frontier followed).1) roots := by
  fun_induction follow links frontier followed with
  | case1 followed unseen => exact h.grows
  | case2 followed unseen row pending ih =>
    have hrow : row ∈ S \ marked unseen := h.pending_seen row List.mem_cons_self
    have hrest : Frontier.Grown rows S roots ⟨unseen, pending⟩ :=
      ⟨h.grows, h.unseen_subset, fun next hnext => h.pending_seen next (List.mem_cons_of_mem _ hnext)⟩
    exact ih (hrest.foldl_see hlinks hrow fun _ hother => hother)

/-- The representatives of the components found so far are different roots of a forest of the rows seen
so far. -/
structure Partition.Grown (rows : ℕ → List κ) (S : Finset ℕ) (partition : Partition) : Prop where
  grows : Rows.Grows rows S (S \ marked partition.unseen) (partition.components.map (·.1)).toFinset
  unseen_subset : marked partition.unseen ⊆ S
  nodup : (partition.components.map (·.1)).Nodup

/-- A step of the partition makes its row a root, unless a walk has seen it. -/
theorem Partition.Grown.step (hlinks : LinksWithin rows S links) {partition : Partition}
    (h : partition.Grown rows S) (row : ℕ) :
    (partition.step links row).Grown rows S ∧
      marked (partition.step links row).unseen ⊆ (marked partition.unseen).erase row := by
  obtain ⟨unseen, components⟩ := partition
  simp only [Partition.step]
  split
  next hmark =>
    have hunseen : row ∈ marked unseen := mem_marked.mpr hmark
    have hrow : row ∈ S := h.unseen_subset hunseen
    have hnew : row ∉ S \ marked unseen :=
      fun hmem => (Finset.mem_sdiff.mp hmem).2 hunseen
    have hfresh : row ∉ components.map (·.1) := by
      intro hmem
      exact hnew (h.grows.roots_subset (List.mem_toFinset.mpr hmem))
    have hsee : Frontier.see ⟨unseen, []⟩ row = ⟨unseen.setIfInBounds row false, [row]⟩ := by
      rw [Frontier.see, if_pos hmark]
    have hfound : S \ marked (unseen.setIfInBounds row false) =
        insert row (S \ marked unseen) := by
      rw [marked_setIfInBounds, Finset.sdiff_erase hrow]
    have hstart : Frontier.Grown rows S (insert row (components.map (·.1)).toFinset)
        ⟨unseen.setIfInBounds row false, [row]⟩ := by
      refine ⟨?_, ?_, ?_⟩
      · rw [hfound]
        exact .root h.grows hrow hnew
      · rw [marked_setIfInBounds]
        exact (Finset.erase_subset _ _).trans h.unseen_subset
      · intro next hnext
        rw [hfound, List.mem_singleton.mp hnext]
        exact Finset.mem_insert_self _ _
    have hgrows := grows_follow hlinks hstart []
    have hmono := marked_follow_subset links ⟨unseen.setIfInBounds row false, [row]⟩ []
    rw [hsee]
    rw [marked_setIfInBounds] at hmono
    refine ⟨⟨?_, hmono.trans ((Finset.erase_subset _ _).trans h.unseen_subset), ?_⟩, hmono⟩
    · rw [List.map_cons, List.toFinset_cons]
      exact hgrows
    · rw [List.map_cons]
      exact List.nodup_cons.mpr ⟨hfresh, h.nodup⟩
  next hmark =>
    refine ⟨h, fun other hother => Finset.mem_erase.mpr ⟨?_, hother⟩⟩
    rintro rfl
    exact hmark (mem_marked.mp hother)

theorem Partition.Grown.foldl_step (hlinks : LinksWithin rows S links) {partition : Partition}
    (h : partition.Grown rows S) (order : List ℕ) :
    (order.foldl (Partition.step links) partition).Grown rows S ∧
      marked (order.foldl (Partition.step links) partition).unseen ⊆
        marked partition.unseen \ order.toFinset := by
  induction order generalizing partition with
  | nil => exact ⟨h, by simp⟩
  | cons row rest ih =>
    obtain ⟨hstep, herase⟩ := h.step hlinks row
    obtain ⟨hgrown, hrest⟩ := ih hstep
    constructor
    · exact hgrown
    · intro other hother
      obtain ⟨hleft, hnot⟩ := Finset.mem_sdiff.mp (hrest hother)
      obtain ⟨hne, hmem⟩ := Finset.mem_erase.mp (herase hleft)
      rw [List.toFinset_cons, Finset.mem_sdiff, Finset.mem_insert]
      constructor
      · exact hmem
      · rintro (heq | hin)
        · exact hne heq
        · exact hnot hin

/-- The representatives of the components are different roots from which all marked rows are reached. -/
theorem grows_components (marks : Array Bool)
    (hlinks : LinksWithin rows (marked marks) links) :
    ((components links marks).map (·.1)).Nodup ∧
      Rows.Grows rows (marked marks) (marked marks)
        ((components links marks).map (·.1)).toFinset := by
  have hstart : Partition.Grown rows (marked marks) ⟨marks, []⟩ := by
    refine ⟨?_, Finset.Subset.refl _, List.nodup_nil⟩
    rw [Finset.sdiff_self]
    exact .empty
  obtain ⟨hgrown, hunseen⟩ := hstart.foldl_step hlinks (List.range marks.size)
  have hall : marked marks \ marked
      ((List.range marks.size).foldl (Partition.step links) ⟨marks, []⟩).unseen = marked marks := by
    apply Finset.sdiff_eq_self_of_disjoint
    rw [Finset.disjoint_left]
    intro row hrow hmem
    apply (Finset.mem_sdiff.mp (hunseen hmem)).2
    exact List.mem_toFinset.mpr (List.mem_range.mpr (lt_size_of_marked (mem_marked.mp hrow)))
  have hgrows := hgrown.grows
  rw [hall] at hgrows
  simp only [components, List.map_reverse]
  refine ⟨List.nodup_reverse.mpr hgrown.nodup, ?_⟩
  rwa [List.toFinset_reverse]

end Walk

/-- Each cluster is represented by the row that its component was found from. -/
theorem map_representative_clusters (table : Incidence) :
    table.clusters.map Cluster.representative =
      (components (table.links table.pairSums) table.used).map (·.1) := by
  simp [clusters]

/-- The representatives of the clusters are different used rows, and the excess of the other rows is not
positive. -/
theorem Consistent.representatives (h : table.Consistent) :
    let representatives := table.clusters.map Cluster.representative
    representatives.Nodup ∧ (∀ row ∈ representatives, row ∈ table.usedSet) ∧
      Rows.excess table.list (table.usedSet \ representatives.toFinset) ≤ 0 := by
  obtain ⟨hnodup, hgrows⟩ := grows_components table.used
    fun row hrow other hother => h.exists_slot_of_mem_links hrow hother
  simp only [map_representative_clusters]
  refine ⟨hnodup, ?_, hgrows.excess_sdiff_le⟩
  intro row hrow
  exact hgrows.roots_subset (List.mem_toFinset.mpr hrow)

end SieveFilter.Incidence
