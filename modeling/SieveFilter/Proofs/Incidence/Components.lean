import Mathlib.Logic.Relation
import SieveFilter.Proofs.Incidence.Clusters

/-!
# Clusters as connected components

A link can be followed back, so rows that can be reached from each other form classes.  The walk from a row
goes through unseen rows only; it still finds the whole class, because the rows seen before it are those of
other classes.  As the rows are tried in increasing order, each class is found from its least row.
-/

namespace SieveFilter.Incidence

section Walk

variable {S : Finset ℕ} {links : ℕ → List ℕ}

/-- Links join rows of `S`, and each can be followed back. -/
structure LinksBothWays (S : Finset ℕ) (links : ℕ → List ℕ) : Prop where
  mem : ∀ row ∈ S, ∀ other ∈ links row, other ∈ S
  back : ∀ row ∈ S, ∀ other ∈ links row, row ∈ links other

/-- A walk along links leads from one row to another. -/
def Reaches (links : ℕ → List ℕ) : ℕ → ℕ → Prop :=
  Relation.ReflTransGen fun row other => other ∈ links row

theorem Reaches.mem (hlinks : ∀ row ∈ S, ∀ other ∈ links row, other ∈ S) {row other : ℕ}
    (hrow : row ∈ S) (h : Reaches links row other) : other ∈ S := by
  induction h with
  | refl => exact hrow
  | tail _ hlink ih => exact hlinks _ ih _ hlink

theorem Reaches.symm (hlinks : LinksBothWays S links) {row other : ℕ} (hrow : row ∈ S)
    (h : Reaches links row other) : Reaches links other row := by
  induction h with
  | refl => exact .refl
  | tail hwalk hlink ih =>
    exact .head (hlinks.back _ (Reaches.mem hlinks.mem hrow hwalk) _ hlink) ih

/-- The rows seen by a walk from `start` through the rows of `before`: each of them once, and each of them
reached from `start`. -/
structure Frontier.Explores (links : ℕ → List ℕ) (start : ℕ) (before : Finset ℕ)
    (frontier : Frontier) (followed : List ℕ) : Prop where
  unseen_subset : marked frontier.unseen ⊆ before
  nodup : (frontier.pending ++ followed).Nodup
  mem_iff : ∀ row, row ∈ frontier.pending ++ followed ↔ row ∈ before \ marked frontier.unseen
  reached : ∀ row ∈ frontier.pending ++ followed, Reaches links start row

namespace Frontier

variable {start : ℕ} {before : Finset ℕ} {frontier : Frontier} {followed : List ℕ}

theorem notMem_marked_see (frontier : Frontier) (row : ℕ) :
    row ∉ marked (frontier.see row).unseen := by
  obtain ⟨unseen, pending⟩ := frontier
  simp only [see]
  split
  · rw [marked_setIfInBounds]
    exact Finset.notMem_erase _ _
  next hmark => exact fun hmem => hmark (mem_marked.mp hmem)

theorem notMem_marked_foldl_see {others : List ℕ} {other : ℕ} (hother : other ∈ others) :
    other ∉ marked (others.foldl see frontier).unseen := by
  induction others generalizing frontier with
  | nil => exact absurd hother List.not_mem_nil
  | cons head rest ih =>
    rcases List.mem_cons.mp hother with rfl | hrest
    · exact fun hmem => notMem_marked_see frontier other (marked_foldl_see_subset _ rest hmem)
    · exact ih hrest

/-- Seeing a row that is reached from the start keeps the rows seen apart. -/
theorem Explores.see (h : frontier.Explores links start before followed) {row : ℕ}
    (hrow : Reaches links start row) : (frontier.see row).Explores links start before followed := by
  obtain ⟨unseen, pending⟩ := frontier
  simp only [Frontier.see]
  split
  next hmark =>
    have hunseen : row ∈ marked unseen := mem_marked.mpr hmark
    have hfresh : row ∉ pending ++ followed := by
      intro hmem
      exact (Finset.mem_sdiff.mp ((h.mem_iff row).mp hmem)).2 hunseen
    refine ⟨?_, List.nodup_cons.mpr ⟨hfresh, h.nodup⟩, ?_, ?_⟩
    · rw [marked_setIfInBounds]
      exact (Finset.erase_subset _ _).trans h.unseen_subset
    · intro other
      rw [marked_setIfInBounds, Finset.sdiff_erase (h.unseen_subset hunseen), Finset.mem_insert,
        ← h.mem_iff other]
      exact List.mem_cons
    · intro other hother
      rcases List.mem_cons.mp hother with rfl | hother
      · exact hrow
      · exact h.reached other hother
  next => exact h

theorem Explores.foldl_see (h : frontier.Explores links start before followed) {others : List ℕ}
    (hothers : ∀ other ∈ others, Reaches links start other) :
    (others.foldl Frontier.see frontier).Explores links start before followed := by
  induction others generalizing frontier with
  | nil => exact h
  | cons other rest ih =>
    exact ih (h.see (hothers other List.mem_cons_self))
      fun next hnext => hothers next (List.mem_cons_of_mem _ hnext)

/-- A pending row that is followed stays among the rows seen. -/
theorem Explores.follow_next {unseen : Array Bool} {row : ℕ} {pending : List ℕ}
    (h : Explores links start before ⟨unseen, row :: pending⟩ followed) :
    Explores links start before ⟨unseen, pending⟩ (row :: followed) := by
  have hperm : (pending ++ row :: followed).Perm (row :: pending ++ followed) := List.perm_middle
  exact ⟨h.unseen_subset, hperm.nodup_iff.mpr h.nodup,
    fun other => (hperm.mem_iff).trans (h.mem_iff other),
    fun other hother => h.reached other (hperm.mem_iff.mp hother)⟩

end Frontier

/-- When all pending rows have been followed, no link leads from a row that was followed to an unseen one. -/
theorem explores_follow {start : ℕ} {before : Finset ℕ} {frontier : Frontier} {followed : List ℕ}
    (h : frontier.Explores links start before followed)
    (hclosed : ∀ row ∈ followed, ∀ other ∈ links row, other ∉ marked frontier.unseen) :
    let walk := follow links frontier followed
    Frontier.Explores links start before ⟨walk.1, []⟩ walk.2 ∧
      ∀ row ∈ walk.2, ∀ other ∈ links row, other ∉ marked walk.1 := by
  fun_induction follow links frontier followed with
  | case1 followed unseen => exact ⟨h, hclosed⟩
  | case2 followed unseen row pending ih =>
    have hreach : Reaches links start row := h.reached row List.mem_cons_self
    have hsubset := Frontier.marked_foldl_see_subset ⟨unseen, pending⟩ (links row)
    refine ih (h.follow_next.foldl_see fun other hother => hreach.tail hother) ?_
    intro next hnext other hother
    rcases List.mem_cons.mp hnext with rfl | hnext
    · exact Frontier.notMem_marked_foldl_see hother
    · intro hmem
      exact hclosed next hnext other hother (hsubset hmem)

/-- The walk from an unseen row finds the rows that can be reached from it, each once, if links lead from
unseen rows to unseen rows only. -/
theorem follow_finds {unseen : Array Bool} {start : ℕ} (hstart : start ∈ marked unseen)
    (hclosed : ∀ row ∈ marked unseen, ∀ other ∈ links row, other ∈ marked unseen) :
    let walk := follow links (Frontier.see ⟨unseen, []⟩ start) []
    walk.2.Nodup ∧ (∀ row, row ∈ walk.2 ↔ Reaches links start row) ∧
      marked walk.1 = marked unseen \ walk.2.toFinset := by
  have hnone : Frontier.Explores links start (marked unseen) ⟨unseen, []⟩ [] := by
    refine ⟨Finset.Subset.refl _, List.nodup_nil, ?_, ?_⟩
    · intro row
      simp
    · intro row hrow
      exact absurd hrow List.not_mem_nil
  have hfirst : Frontier.Explores links start (marked unseen) (Frontier.see ⟨unseen, []⟩ start) [] :=
    hnone.see .refl
  obtain ⟨⟨hsubset, hnodup, hmem, hreached⟩, hdone⟩ :=
    explores_follow hfirst fun row hrow => absurd hrow List.not_mem_nil
  have hmono := marked_follow_subset links (Frontier.see ⟨unseen, []⟩ start) []
  have hseen := fun hleft => Frontier.notMem_marked_see ⟨unseen, []⟩ start (hmono hleft)
  simp only [List.nil_append] at hsubset hnodup hmem hreached
  generalize follow links (Frontier.see ⟨unseen, []⟩ start) [] = walk at *
  refine ⟨hnodup, fun row => ⟨hreached row, fun hreach => ?_⟩, ?_⟩
  · induction hreach with
    | refl => exact (hmem start).mpr (Finset.mem_sdiff.mpr ⟨hstart, hseen⟩)
    | @tail row other _ hlink ih =>
      have hrow := (Finset.mem_sdiff.mp ((hmem row).mp ih)).1
      exact (hmem other).mpr
        (Finset.mem_sdiff.mpr ⟨hclosed row hrow other hlink, hdone row ih other hlink⟩)
  · ext row
    rw [Finset.mem_sdiff, List.mem_toFinset, hmem row, Finset.mem_sdiff]
    constructor
    · exact fun hleft => ⟨hsubset hleft, fun hfound => hfound.2 hleft⟩
    · rintro ⟨hrow, hnot⟩
      by_contra hleft
      exact hnot ⟨hrow, hleft⟩

/-- A row of `S` with the rows that can be reached from it, each once; it is the least of them. -/
structure IsComponent (links : ℕ → List ℕ) (S : Finset ℕ) (component : ℕ × List ℕ) : Prop where
  mem_set : component.1 ∈ S
  nodup : component.2.Nodup
  mem_iff : ∀ row, row ∈ component.2 ↔ Reaches links component.1 row
  least : ∀ row ∈ component.2, component.1 ≤ row

/-- Components whose first rows can be reached from each other start with the same row. -/
theorem IsComponent.eq_of_reaches (hlinks : LinksBothWays S links) {first second : ℕ × List ℕ}
    (hfirst : IsComponent links S first) (hsecond : IsComponent links S second)
    (h : Reaches links first.1 second.1) : first.1 = second.1 := by
  have hback := Reaches.symm hlinks hfirst.mem_set h
  have hle := hfirst.least second.1 ((hfirst.mem_iff second.1).mpr h)
  have hge := hsecond.least first.1 ((hsecond.mem_iff first.1).mpr hback)
  exact le_antisymm hle hge

/-- Once the rows below `n` have been tried, the rows that are left unseen are those of components whose least
row is `n` or more. -/
structure Partition.Splits (links : ℕ → List ℕ) (S : Finset ℕ) (n : ℕ) (partition : Partition) :
    Prop where
  components : ∀ component ∈ partition.components, IsComponent links S component
  below : ∀ component ∈ partition.components, component.1 < n
  falling : partition.components.Pairwise fun later earlier => earlier.1 < later.1
  mem_unseen : ∀ row, row ∈ marked partition.unseen ↔
    row ∈ S ∧ ∀ component ∈ partition.components, row ∉ component.2
  le_unseen : ∀ row ∈ marked partition.unseen, n ≤ row

namespace Partition.Splits

variable {n : ℕ} {partition : Partition}

/-- No link leads from an unseen row to a component that was found. -/
theorem closed (hlinks : LinksBothWays S links) (h : partition.Splits links S n) :
    ∀ row ∈ marked partition.unseen, ∀ other ∈ links row, other ∈ marked partition.unseen := by
  intro row hrow other hother
  obtain ⟨hin, hfresh⟩ := (h.mem_unseen row).mp hrow
  refine (h.mem_unseen other).mpr
    ⟨hlinks.mem row hin other hother, fun component hcomponent hfound => ?_⟩
  have hmem := (h.components component hcomponent).mem_iff
  have hback := hlinks.back row hin other hother
  exact hfresh component hcomponent ((hmem row).mpr (((hmem other).mp hfound).tail hback))

/-- The row that is tried next starts a component of its own, unless it belongs to one found before. -/
theorem step (hlinks : LinksBothWays S links) (h : partition.Splits links S n) :
    (partition.step links n).Splits links S (n + 1) := by
  have hclosed := h.closed hlinks
  obtain ⟨unseen, components⟩ := partition
  simp only [Partition.step]
  split
  next hmark =>
    have hstart : n ∈ marked unseen := mem_marked.mpr hmark
    obtain ⟨hnodup, hreach, hleft⟩ := follow_finds hstart hclosed
    generalize follow links (Frontier.see ⟨unseen, []⟩ n) [] = walk at hnodup hreach hleft ⊢
    have hunseen : ∀ row ∈ walk.2, row ∈ marked unseen := fun row hrow =>
      ((hreach row).mp hrow).mem hclosed hstart
    have hnew : IsComponent links S (n, walk.2) :=
      ⟨((h.mem_unseen n).mp hstart).1, hnodup, hreach, fun row hrow =>
        h.le_unseen row (hunseen row hrow)⟩
    refine ⟨?_, ?_, ?_, ?_, ?_⟩
    · exact List.forall_mem_cons.mpr ⟨hnew, h.components⟩
    · exact List.forall_mem_cons.mpr ⟨n.lt_succ_self, fun component hcomponent =>
        (h.below component hcomponent).trans n.lt_succ_self⟩
    · exact List.pairwise_cons.mpr ⟨h.below, h.falling⟩
    · intro row
      rw [hleft, Finset.mem_sdiff, List.mem_toFinset, h.mem_unseen row, List.forall_mem_cons]
      constructor
      · rintro ⟨⟨hin, hold⟩, hfresh⟩
        exact ⟨hin, hfresh, hold⟩
      · rintro ⟨hin, hfresh, hold⟩
        exact ⟨⟨hin, hold⟩, hfresh⟩
    · intro row hrow
      rw [hleft, Finset.mem_sdiff, List.mem_toFinset] at hrow
      have hne : n ≠ row := by
        rintro rfl
        exact hrow.2 ((hreach n).mpr .refl)
      exact Nat.lt_of_le_of_ne (h.le_unseen row hrow.1) hne
  next hmark =>
    refine ⟨h.components, fun component hcomponent => (h.below component hcomponent).trans n.lt_succ_self,
      h.falling, h.mem_unseen, fun row hrow => ?_⟩
    have hne : n ≠ row := by
      rintro rfl
      exact hmark (mem_marked.mp hrow)
    exact Nat.lt_of_le_of_ne (h.le_unseen row hrow) hne

end Partition.Splits

theorem splits_foldl_step {marks : Array Bool} (hlinks : LinksBothWays (marked marks) links) (n : ℕ) :
    ((List.range n).foldl (Partition.step links) ⟨marks, []⟩).Splits links (marked marks) n := by
  induction n with
  | zero =>
    refine ⟨?_, ?_, List.Pairwise.nil, ?_, ?_⟩
    all_goals simp
  | succ n ih =>
    rw [List.range_succ, List.foldl_append]
    exact ih.step hlinks

/-- The components found are those of all marked rows, in increasing order of their least rows. -/
theorem components_split {marks : Array Bool} (hlinks : LinksBothWays (marked marks) links) :
    (∀ component ∈ components links marks, IsComponent links (marked marks) component) ∧
      (components links marks).Pairwise (fun earlier later => earlier.1 < later.1) ∧
      ∀ row ∈ marked marks, ∃ component ∈ components links marks, row ∈ component.2 := by
  have hsplits := splits_foldl_step hlinks marks.size
  simp only [components, List.mem_reverse, List.pairwise_reverse]
  refine ⟨hsplits.components, hsplits.falling, ?_⟩
  intro row hrow
  by_contra hnone
  push Not at hnone
  have hsize := hsplits.le_unseen row ((hsplits.mem_unseen row).mpr ⟨hrow, hnone⟩)
  exact absurd (lt_size_of_marked (mem_marked.mp hrow)) (Nat.not_lt.mpr hsize)

end Walk

/-! ## Connected rows -/

variable {table : Incidence}

/-- Two different used rows list a slot that has two references. -/
def Linked (table : Incidence) (row other : ℕ) : Prop :=
  row ≠ other ∧ row ∈ table.usedSet ∧ other ∈ table.usedSet ∧
    ∃ slot ∈ table.list row, slot ∈ table.list other ∧ table.count slot = 2

/-- Two rows are the same, or a chain of linked rows leads from one to the other. -/
def Connected (table : Incidence) : ℕ → ℕ → Prop :=
  Relation.ReflTransGen table.Linked

theorem Linked.symm {row other : ℕ} (h : table.Linked row other) : table.Linked other row := by
  obtain ⟨hne, hrow, hother, slot, hslot, hslot', htwo⟩ := h
  exact ⟨hne.symm, hother, hrow, slot, hslot', hslot, htwo⟩

/-- A row is linked to the used rows that the pair sums lead to, itself apart. -/
theorem Consistent.mem_links_iff (h : table.Consistent) {row other : ℕ} (hrow : row ∈ table.usedSet)
    (hne : row ≠ other) : other ∈ table.links table.pairSums row ↔ table.Linked row other := by
  constructor
  · intro hother
    obtain ⟨slot, hslot, htwo, hused, hslot'⟩ := h.exists_slot_of_mem_links hrow hother
    exact ⟨hne, hrow, hused, slot, hslot, hslot', by rw [h.count_eq, htwo]; rfl⟩
  · rintro ⟨-, -, hother, slot, hslot, hslot', htwo⟩
    have hreferences : Rows.references table.list table.usedSet slot = 2 := by
      have hcount := h.count_eq slot
      omega
    have hsum := Rows.rowSum_eq_add hrow hslot hreferences hother hslot' hne.symm
    refine List.mem_map.mpr ⟨slot, List.mem_filter.mpr ⟨hslot, by simp [htwo]⟩, ?_⟩
    rw [partner, h.getD_pairSums htwo, hsum]
    omega

theorem Consistent.linksBothWays (h : table.Consistent) :
    LinksBothWays table.usedSet (table.links table.pairSums) := by
  constructor
  · intro row hrow other hother
    obtain ⟨slot, -, -, hused, -⟩ := h.exists_slot_of_mem_links hrow hother
    exact hused
  · intro row hrow other hother
    by_cases heq : row = other
    · exact heq ▸ hother
    · have hlinked := (h.mem_links_iff hrow heq).mp hother
      exact (h.mem_links_iff hlinked.2.2.1 (Ne.symm heq)).mpr hlinked.symm

/-- Walks along the pair sums connect rows, and connected rows are joined by such walks. -/
theorem Consistent.reaches_iff (h : table.Consistent) {row other : ℕ} (hrow : row ∈ table.usedSet) :
    Reaches (table.links table.pairSums) row other ↔ table.Connected row other := by
  constructor
  · intro hreach
    induction hreach with
    | refl => exact .refl
    | @tail next other hwalk hlink ih =>
      by_cases heq : next = other
      · exact heq ▸ ih
      · have hnext := Reaches.mem h.linksBothWays.mem hrow hwalk
        exact ih.tail ((h.mem_links_iff hnext heq).mp hlink)
  · intro hconnected
    refine Relation.ReflTransGen.mono (fun next other hlinked => ?_) row other hconnected
    exact (h.mem_links_iff hlinked.2.1 hlinked.1).mpr hlinked

/-- The representatives of the clusters increase. -/
theorem Consistent.pairwise_representative_lt (h : table.Consistent) :
    table.clusters.Pairwise fun earlier later => earlier.representative < later.representative := by
  obtain ⟨-, hincreasing, -⟩ := components_split h.linksBothWays
  exact List.pairwise_map.mpr hincreasing

/-- Every used row is connected to the representative of exactly one cluster. -/
theorem Consistent.existsUnique_representative (h : table.Consistent) {row : ℕ}
    (hrow : row ∈ table.usedSet) :
    ∃! representative, representative ∈ table.clusters.map Cluster.representative ∧
      table.Connected representative row := by
  obtain ⟨hcomponents, -, hall⟩ := components_split h.linksBothWays
  have hlinks := h.linksBothWays
  rw [map_representative_clusters]
  obtain ⟨component, hmem, hin⟩ := hall row hrow
  have hcomponent := hcomponents component hmem
  have hreach := (hcomponent.mem_iff row).mp hin
  refine ⟨component.1, ⟨List.mem_map_of_mem hmem, (h.reaches_iff hcomponent.mem_set).mp hreach⟩, ?_⟩
  rintro representative ⟨hrepresentative, hconnected⟩
  obtain ⟨other, hother, rfl⟩ := List.mem_map.mp hrepresentative
  have hother := hcomponents other hother
  have hto := (h.reaches_iff hother.mem_set).mpr hconnected
  have hback := Reaches.symm hlinks hcomponent.mem_set hreach
  exact hother.eq_of_reaches hlinks hcomponent (hto.trans hback)

end SieveFilter.Incidence
