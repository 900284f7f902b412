import SieveFilter.Proofs.Incidence.Components
import SieveFilter.Proofs.Incidence.Operations

/-!
# What clusters say about components

The clusters are a list of the connected components, each described by its least row and by the number and
the total list length of its rows.  Components share no row and together are all used rows, so the sizes add
up to the extent of the table.  The links that join them come from the pair sums, each of which leads from one
of the two references to its slot to the other.
-/

namespace SieveFilter.Incidence

variable {table : Incidence}

/-- The rows are a connected component: those that are connected to one used row. -/
def IsClass (table : Incidence) (rows : Finset ℕ) : Prop :=
  ∃ row ∈ table.usedSet, ∀ other, other ∈ rows ↔ table.Connected row other

/-- A cluster describes rows by the least of them, their number, and the total length of their lists. -/
structure Measures (table : Incidence) (cluster : Cluster) (rows : Finset ℕ) : Prop where
  least : IsLeast (rows : Set ℕ) cluster.representative
  rows_eq : cluster.rows = rows.card
  weight_eq : cluster.weight = ∑ row ∈ rows, (table.list row).length

/-- Of the two references to a slot, one of them from `row`, the other is from `other`.  Both are from the same
row exactly when its list has the slot twice. -/
structure IsPartner (table : Incidence) (slot row other : ℕ) : Prop where
  used : other ∈ table.usedSet
  listed : slot ∈ table.list other
  no_third : ∀ third ∈ table.usedSet, slot ∈ table.list third → third = row ∨ third = other
  self_iff : other = row ↔ (table.list row).count slot = 2

/-! ## Partners -/

theorem size_pairSums (table : Incidence) : table.pairSums.size = table.roster.size := by
  have hsize : table.pairSums.size = (Array.replicate table.roster.size 0).size :=
    @size_foldl_tally ℕ _ (fun slot => table.count slot = 2) _ table.list id table.usedRows _
  rw [hsize, Array.size_replicate]

/-- The pair sum of a slot with two references leads from each of them to the other. -/
theorem Consistent.exists_isPartner (h : table.Consistent) {row slot : ℕ} (hrow : row ∈ table.usedSet)
    (hslot : slot ∈ table.list row) (htwo : table.count slot = 2) :
    ∃ other, table.pairSums[slot]? = some (row + other) ∧ table.IsPartner slot row other := by
  have hreferences : Rows.references table.list table.usedSet slot = 2 := by
    have hcount := h.count_eq slot
    omega
  obtain ⟨other, hother, hlisted, hsum⟩ := Rows.exists_partner hrow hslot hreferences
  refine ⟨other, ?_, hother, hlisted, ?_, ?_⟩
  · have hget := h.getD_pairSums htwo
    rw [hsum] at hget
    have hin : slot < table.pairSums.size := by
      rw [size_pairSums]
      exact resolves_iff.mp h.resolves row hrow slot hslot
    simpa [Array.getD, hin] using hget
  · exact fun third hthird hthird' =>
      Rows.eq_or_eq_of_rowSum_eq hrow hslot hreferences hsum hthird hthird'
  · exact Rows.eq_iff_of_rowSum_eq hrow hslot hreferences hother hlisted hsum

/-! ## Sizes -/

/-- The extent of a table counts its used rows and adds up the lengths of their lists. -/
theorem extent_eq_sum (table : Incidence) :
    table.extent = ⟨table.usedSet.card, ∑ row ∈ table.usedSet, (table.list row).length⟩ := by
  have hfold (rows : List ℕ) (start : Extent) :
      rows.foldl (fun e row => (⟨e.rows + 1, e.weight + (table.list row).length⟩ : Extent)) start =
        ⟨start.rows + rows.length,
          start.weight + (rows.map fun row => (table.list row).length).sum⟩ := by
    induction rows generalizing start with
    | nil => rfl
    | cons row rest ih =>
      rw [List.foldl_cons, ih, List.length_cons, List.map_cons, List.sum_cons]
      simp only [Extent.mk.injEq]
      omega
  rw [extent, hfold, Nat.zero_add, Nat.zero_add, ← toFinset_usedRows,
    List.toFinset_card_of_nodup (nodup_usedRows table), List.sum_toFinset _ (nodup_usedRows table)]

/-- The cluster that describes the rows of a component. -/
def clusterOf (table : Incidence) (component : ℕ × List ℕ) : Cluster where
  representative := component.1
  rows := component.2.length
  weight := (component.2.map fun row => (table.list row).length).sum

theorem clusters_eq_map (table : Incidence) :
    table.clusters =
      (components (table.links table.pairSums) table.used).map table.clusterOf := by
  rw [clusters]
  refine List.map_congr_left fun component _ => ?_
  simp only [clusterOf, List.sum_eq_foldl, List.foldl_map]

section Components

variable {S : Finset ℕ} {links : ℕ → List ℕ}

theorem IsComponent.representative_mem {component : ℕ × List ℕ} (h : IsComponent links S component) :
    component.1 ∈ component.2 :=
  (h.mem_iff component.1).mpr .refl

/-- A component is described by its cluster. -/
theorem IsComponent.measures {component : ℕ × List ℕ} (h : IsComponent links S component)
    (table : Incidence) : table.Measures (table.clusterOf component) component.2.toFinset where
  least := ⟨List.mem_toFinset.mpr h.representative_mem,
    fun row hrow => h.least row (List.mem_toFinset.mp hrow)⟩
  rows_eq := (List.toFinset_card_of_nodup h.nodup).symm
  weight_eq := (List.sum_toFinset _ h.nodup).symm

/-- Different components share no row. -/
theorem IsComponent.disjoint (hlinks : LinksBothWays S links) {first second : ℕ × List ℕ}
    (hfirst : IsComponent links S first) (hsecond : IsComponent links S second)
    (hne : first.1 ≠ second.1) : first.2.Disjoint second.2 := by
  intro row hrow hrow'
  have hto := (hfirst.mem_iff row).mp hrow
  have hback := Reaches.symm hlinks hsecond.mem_set ((hsecond.mem_iff row).mp hrow')
  exact hne (hfirst.eq_of_reaches hlinks hsecond (hto.trans hback))

end Components

/-- The components together are the used rows. -/
theorem Consistent.flatMap_components_perm (h : table.Consistent) :
    ((components (table.links table.pairSums) table.used).flatMap Prod.snd).Perm table.usedRows := by
  obtain ⟨hcomponents, hincreasing, hall⟩ := components_split h.linksBothWays
  have hnodup : ((components (table.links table.pairSums) table.used).flatMap Prod.snd).Nodup := by
    refine List.nodup_flatMap.mpr ⟨fun component hmem => (hcomponents component hmem).nodup, ?_⟩
    refine hincreasing.imp_of_mem fun {first second} hfirst hsecond hlt => ?_
    exact (hcomponents first hfirst).disjoint h.linksBothWays (hcomponents second hsecond) hlt.ne
  refine (List.perm_ext_iff_of_nodup hnodup (nodup_usedRows table)).mpr fun row => ?_
  rw [← List.mem_toFinset (l := table.usedRows), toFinset_usedRows, List.mem_flatMap]
  constructor
  · rintro ⟨component, hmem, hrow⟩
    have hcomponent := hcomponents component hmem
    exact Reaches.mem h.linksBothWays.mem hcomponent.mem_set ((hcomponent.mem_iff row).mp hrow)
  · exact hall row

/-- What the rows of the components amount to is what all used rows amount to. -/
theorem Consistent.sum_components (h : table.Consistent) (amount : ℕ → ℕ) :
    ((components (table.links table.pairSums) table.used).map fun component =>
        (component.2.map amount).sum).sum = ∑ row ∈ table.usedSet, amount row := by
  rw [← toFinset_usedRows, List.sum_toFinset _ (nodup_usedRows table),
    ← (h.flatMap_components_perm.map amount).sum_eq, List.map_flatMap, List.flatMap_def, List.sum_flatten,
    List.map_map]
  rfl

/-! ## Classes -/

/-- The sets of rows of the components, in the order in which the components are found. -/
def classes (table : Incidence) : List (Finset ℕ) :=
  (components (table.links table.pairSums) table.used).map fun component => component.2.toFinset

theorem Consistent.mem_classes_iff (h : table.Consistent) {rows : Finset ℕ} :
    rows ∈ table.classes ↔ table.IsClass rows := by
  obtain ⟨hcomponents, -, hall⟩ := components_split h.linksBothWays
  rw [classes, List.mem_map]
  constructor
  · rintro ⟨component, hmem, rfl⟩
    have hcomponent := hcomponents component hmem
    refine ⟨component.1, hcomponent.mem_set, fun other => ?_⟩
    rw [List.mem_toFinset, hcomponent.mem_iff]
    exact h.reaches_iff hcomponent.mem_set
  · rintro ⟨row, hrow, hrows⟩
    obtain ⟨component, hmem, hin⟩ := hall row hrow
    have hcomponent := hcomponents component hmem
    have hto := (hcomponent.mem_iff row).mp hin
    have hback := Reaches.symm h.linksBothWays hcomponent.mem_set hto
    refine ⟨component, hmem, Finset.ext fun other => ?_⟩
    rw [List.mem_toFinset, hcomponent.mem_iff, hrows, ← h.reaches_iff hrow]
    exact ⟨hback.trans, hto.trans⟩

theorem Consistent.nodup_classes (h : table.Consistent) : table.classes.Nodup := by
  obtain ⟨hcomponents, hincreasing, -⟩ := components_split h.linksBothWays
  refine List.pairwise_map.mpr (hincreasing.imp_of_mem fun {first second} hfirst hsecond hlt heq => ?_)
  have hdisjoint := (hcomponents first hfirst).disjoint h.linksBothWays (hcomponents second hsecond) hlt.ne
  have hmem := (hcomponents first hfirst).representative_mem
  rw [← List.mem_toFinset, heq, List.mem_toFinset] at hmem
  exact hdisjoint (hcomponents first hfirst).representative_mem hmem

theorem Connected.symm {row other : ℕ} (h : table.Connected row other) : table.Connected other row := by
  induction h with
  | refl => exact .refl
  | tail _ hlink ih => exact .head hlink.symm ih

/-- A class is made of the rows that are connected to any of its rows. -/
theorem IsClass.mem_iff {rows : Finset ℕ} (h : table.IsClass rows) {row other : ℕ} (hrow : row ∈ rows) :
    other ∈ rows ↔ table.Connected row other := by
  obtain ⟨start, -, hrows⟩ := h
  have hto := (hrows row).mp hrow
  rw [hrows]
  exact ⟨hto.symm.trans, hto.trans⟩

/-- A used row belongs to exactly one class. -/
theorem Consistent.existsUnique_class (h : table.Consistent) {row : ℕ} (hrow : row ∈ table.usedSet) :
    ∃! rows, rows ∈ table.classes ∧ row ∈ rows := by
  obtain ⟨-, -, hall⟩ := components_split h.linksBothWays
  obtain ⟨component, hmem, hin⟩ := hall row hrow
  have hclass : component.2.toFinset ∈ table.classes := List.mem_map_of_mem hmem
  refine ⟨component.2.toFinset, ⟨hclass, List.mem_toFinset.mpr hin⟩, ?_⟩
  rintro rows ⟨hrows, hin'⟩
  ext other
  rw [(h.mem_classes_iff.mp hrows).mem_iff hin',
    (h.mem_classes_iff.mp hclass).mem_iff (List.mem_toFinset.mpr hin)]

/-- The clusters of a consistent table are its connected components: each component is described by one
cluster, by its least row and the number and total list length of its rows, and the least rows increase.
Every used row is in exactly one component, so the sizes add up to the extent of the table, which has the used
rows and all that they list.  Of a slot with two references the pair sum is at least the number of either row,
and what is left of it is the other row, or the same row where its list has the slot twice. -/
theorem clusters_measure_components (h : table.Consistent) :
    (∃ classes : List (Finset ℕ), classes.Nodup ∧ (∀ rows, rows ∈ classes ↔ table.IsClass rows) ∧
        List.Forall₂ table.Measures table.clusters classes ∧
        ∀ row ∈ table.usedSet, ∃! rows, rows ∈ classes ∧ row ∈ rows) ∧
      (table.clusters.Pairwise fun earlier later => earlier.representative < later.representative) ∧
      (table.clusters.map Cluster.rows).sum = table.extent.rows ∧
      (table.clusters.map Cluster.weight).sum = table.extent.weight ∧
      table.extent = ⟨table.liveRows, ∑ row ∈ table.usedSet, (table.list row).length⟩ ∧
      ∀ row ∈ table.usedSet, ∀ slot ∈ table.list row, table.count slot = 2 →
        ∃ sum, table.pairSums[slot]? = some sum ∧ row ≤ sum ∧
          partner table.pairSums slot row = sum - row ∧
          table.IsPartner slot row (partner table.pairSums slot row) := by
  have hextent := extent_eq_sum table
  refine ⟨⟨table.classes, h.nodup_classes, fun rows => h.mem_classes_iff, ?_, fun row hrow =>
    h.existsUnique_class hrow⟩, h.pairwise_representative_lt, ?_, ?_, ?_, ?_⟩
  · obtain ⟨hcomponents, -, -⟩ := components_split h.linksBothWays
    rw [clusters_eq_map, classes, List.forall₂_map_left_iff, List.forall₂_map_right_iff,
      List.forall₂_same]
    exact fun component hmem => (hcomponents component hmem).measures table
  · have hrows := h.sum_components fun _ => 1
    rw [← Finset.card_eq_sum_ones] at hrows
    rw [hextent, clusters_eq_map, List.map_map, ← hrows]
    simp [Function.comp_def, clusterOf]
  · rw [hextent, clusters_eq_map, List.map_map]
    exact h.sum_components fun row => (table.list row).length
  · rw [hextent, h.liveRows_eq]
  · intro row hrow slot hslot htwo
    obtain ⟨other, hsum, hpartner⟩ := h.exists_isPartner hrow hslot htwo
    have hother : partner table.pairSums slot row = other := by
      simp [partner, Array.getD_eq_getD_getElem?, hsum]
    refine ⟨row + other, hsum, Nat.le_add_right row other, ?_, ?_⟩
    · rw [hother, Nat.add_sub_cancel_left]
    · rwa [hother]

/-- Two rows with a slot of two references in common, one of them linked to a third, a row that lists such a
slot twice, and a row that is linked to none. -/
def sampleComponents : Incidence :=
  (new 6 64).execute
    [.register 0 [⟨3, 0⟩], .register 1 [⟨5, 0⟩, ⟨5, 0⟩], .register 2 [⟨7, 0⟩, ⟨3, 0⟩],
      .register 3 [⟨11, 0⟩, ⟨13, 0⟩], .register 4 [⟨7, 0⟩, ⟨11, 0⟩], .register 5 [⟨17, 0⟩], .delete 3]

theorem clusters_measure_components_sample :
    sampleComponents.Consistent ∧
      sampleComponents.clusters = [⟨0, 3, 5⟩, ⟨1, 1, 2⟩, ⟨5, 1, 1⟩] ∧
      (∃ classes : List (Finset ℕ), (∀ rows, rows ∈ classes ↔ sampleComponents.IsClass rows) ∧
        List.Forall₂ sampleComponents.Measures [⟨0, 3, 5⟩, ⟨1, 1, 2⟩, ⟨5, 1, 1⟩] classes) ∧
      sampleComponents.IsPartner 2 4 2 ∧ sampleComponents.IsPartner 1 1 1 := by
  have hconsistent : sampleComponents.Consistent := by decide +kernel
  have hclusters : sampleComponents.clusters = [⟨0, 3, 5⟩, ⟨1, 1, 2⟩, ⟨5, 1, 1⟩] := by
    decide +kernel
  obtain ⟨⟨classes, -, hclasses, hmeasures, -⟩, -, -, -, -, hpartners⟩ :=
    clusters_measure_components hconsistent
  obtain ⟨_, -, -, -, hother⟩ := hpartners 4 (mem_usedSet.mpr (by decide +kernel)) 2
    (by decide +kernel) (by decide +kernel)
  obtain ⟨_, -, -, -, hself⟩ := hpartners 1 (mem_usedSet.mpr (by decide +kernel)) 1
    (by decide +kernel) (by decide +kernel)
  have htwo : partner sampleComponents.pairSums 2 4 = 2 := by decide +kernel
  have hone : partner sampleComponents.pairSums 1 1 = 1 := by decide +kernel
  rw [hclusters] at hmeasures
  rw [htwo] at hother
  rw [hone] at hself
  exact ⟨hconsistent, hclusters, ⟨classes, hclasses, hmeasures⟩, hother, hself⟩

end SieveFilter.Incidence
