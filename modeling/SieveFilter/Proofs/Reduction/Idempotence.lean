import SieveFilter.Proofs.Reduction.Copying
import SieveFilter.Proofs.Reduction.FirstPass

/-!
# Raw runs on their own result

A raw run on the lines that a raw run has written changes nothing.  The lines are those of a stable set of
rows whose excess is between the required and the kept one, so each check of the second run passes, and no
pass finds a row to delete.
-/

namespace SieveFilter

namespace Incidence

/-- The number of the row that comes at a place among the used rows. -/
def rowAt (table : Incidence) (place : ℕ) : ℕ :=
  table.usedRows.getD place 0

variable {table : Incidence}

theorem rowAt_eq {place : ℕ} (hplace : place < table.usedRows.length) :
    table.rowAt place = table.usedRows[place] := by
  rw [rowAt, List.getD_eq_getElem?_getD, List.getElem?_eq_getElem hplace, Option.getD_some]

theorem injOn_rowAt : Set.InjOn table.rowAt (Finset.range table.usedSet.card) := by
  intro place hplace other hother heq
  simp only [Finset.coe_range, Set.mem_Iio, ← length_usedRows] at hplace hother
  rw [rowAt_eq hplace, rowAt_eq hother] at heq
  exact (nodup_usedRows table).getElem_inj_iff.mp heq

theorem image_rowAt : (Finset.range table.usedSet.card).image table.rowAt = table.usedSet := by
  ext row
  rw [Finset.mem_image, ← toFinset_usedRows, List.mem_toFinset, List.mem_iff_getElem,
    toFinset_usedRows, ← length_usedRows]
  simp only [Finset.mem_range]
  constructor
  · rintro ⟨place, hplace, rfl⟩
    exact ⟨place, hplace, (rowAt_eq hplace).symm⟩
  · rintro ⟨place, hplace, rfl⟩
    exact ⟨place, hplace, rowAt_eq hplace⟩

theorem rowAt_mem_usedSet {place : ℕ} (hplace : place < table.usedSet.card) :
    table.rowAt place ∈ table.usedSet := by
  rw [← image_rowAt]
  exact Finset.mem_image_of_mem _ (Finset.mem_range.mpr hplace)

/-- Where all rows are used, they come in order. -/
theorem usedRows_of_usedSet_eq (hused : table.usedSet = Finset.range table.size) :
    table.usedRows = List.range table.size := by
  apply List.filter_eq_self.mpr
  intro row hrow
  rw [← mem_usedSet, hused]
  exact Finset.mem_range.mpr (List.mem_range.mp hrow)

end Incidence

namespace Reduction

variable {build : Build} {settings : Settings} {cost : Cost} {source : Source} {lines : List String}

/-! ## What filtering has found out -/

/-- What successful filtering says about the input: the excess of the core is at least the required one, and
the list of each surviving row fits into a block. -/
structure Settled (lines : List String) (settings : Settings) (after : Reduction) : Prop where
  passes_eq : after.passes = passCount settings
  required_le : (settings.requiredExcess : ℤ) ≤
    Rows.excess (Relation.rowIdeals lines) (coreRows lines)
  short : ∀ row ∈ after.table.usedSet,
    (Relation.rowIdeals lines row).length + 1 ≤ max settings.blockCapacity 1

theorem settled_of_ends (build : Build) (settings : Settings) (cost : Cost) (hsource : source.Yields lines)
    (hkeep : settings.keptExcess < 2 ^ 63) (hcapacity : settings.blockCapacity ≤ 2 ^ 32)
    (hideals : (Incidence.allIdeals lines).card < 2 ^ 31)
    (hfits : (Incidence.allIdeals lines).card + settings.requiredExcess < 2 ^ 64)
    {after : Reduction} (hends : ((new build settings cost).filter source).Ends after ()) :
    Settled lines settings after := by
  obtain ⟨bounds, before, last, hfinal, rfl⟩ :=
    exists_finalPass build settings cost hsource hkeep hcapacity hideals hends
  obtain ⟨⟨survivors, hsurvivors, -, -, htable⟩, -, -, -, -, hpasses⟩ := hfinal.finished
  obtain ⟨⟨hlength, hfits⟩, hinitial, -⟩ := hfinal.can
  constructor
  · exact hpasses.trans hfinal.passes_eq
  · have hused : before.table.usedSet ⊆ Finset.range lines.length := fun row hrow =>
      Finset.mem_range.mpr (hlength ▸ Incidence.lt_size_of_mem_usedSet hrow)
    have hcard : (Rows.referenced (Relation.rowIdeals lines) before.table.usedSet).card ≤
        (Incidence.allIdeals lines).card := Finset.card_le_card (Rows.referenced_mono hused)
    have hleast := (Build.hasExcess_iff (by omega)).mp hinitial
    have hraised : Rows.excess (Relation.rowIdeals lines) before.table.usedSet ≤
        Rows.excess (Relation.rowIdeals lines)
          (Rows.core (Relation.rowIdeals lines) before.table.usedSet) := Rows.excess_le_excess_core
    rw [Rows.excess] at hraised
    rw [← hfinal.core_eq]
    omega
  · intro row hrow
    have hsurvives : row ∈ survivors.usedSet := by
      simp only [htable] at hrow
      exact hrow
    have hused : row ∈ before.table.usedSet :=
      Rows.core_subset (hsurvivors.subset_core hsurvives)
    have hrowFits := hfits row (hlength ▸ Incidence.lt_size_of_mem_usedSet hused)
    have hshort := hrowFits.short hused
    rwa [Incidence.admitted_eq_of_admitAll hfinal.all, hfinal.capacity_eq] at hshort

/-! ## The lines of the survivors -/

section

variable {after : Reduction}

theorem Filtered.card_usedSet (h : Filtered lines settings after) :
    after.table.usedSet.card = after.table.liveRows := by
  obtain ⟨survivors, hsurvivors, -, -, htable⟩ := h.survivors
  rw [htable]
  exact hsurvivors.represents.consistent.liveRows_eq.symm

theorem length_usedLines (table : Incidence) (lines : List String) :
    (usedLines table lines).length = table.usedSet.card := by
  rw [usedLines, List.length_map, Incidence.length_usedRows]

/-- The line at a place among the surviving lines is that of the row at this place. -/
theorem Filtered.getElem?_usedLines (h : Filtered lines settings after) {place : ℕ}
    (hplace : place < after.table.usedSet.card) :
    (usedLines after.table lines)[place]? = lines[after.table.rowAt place]? := by
  have hin : after.table.rowAt place < lines.length :=
    h.size_eq ▸ Incidence.lt_size_of_mem_usedSet (Incidence.rowAt_mem_usedSet hplace)
  have hlisted : place < after.table.usedRows.length := by rwa [Incidence.length_usedRows]
  rw [usedLines, List.getElem?_map, List.getElem?_eq_getElem hlisted,
    ← Incidence.rowAt_eq hlisted, Option.map_some, List.getD_eq_getElem?_getD,
    List.getElem?_eq_getElem hin, Option.getD_some]

theorem Filtered.rowIdeals_usedLines (h : Filtered lines settings after) {place : ℕ}
    (hplace : place ∈ Finset.range after.table.usedSet.card) :
    Relation.rowIdeals (usedLines after.table lines) place =
      Relation.rowIdeals lines (after.table.rowAt place) := by
  rw [Relation.rowIdeals, h.getElem?_usedLines (Finset.mem_range.mp hplace), Relation.rowIdeals]

/-- The surviving lines have the excess of the surviving rows. -/
theorem Filtered.excess_usedLines (h : Filtered lines settings after) :
    Rows.excess (Relation.rowIdeals (usedLines after.table lines))
        (Finset.range after.table.usedSet.card) = after.table.excess := by
  obtain ⟨survivors, hsurvivors, -, -, htable⟩ := h.survivors
  calc
    _ = Rows.excess (fun place => Relation.rowIdeals lines (after.table.rowAt place))
          (Finset.range after.table.usedSet.card) :=
      Rows.excess_congr fun place => h.rowIdeals_usedLines
    _ = Rows.excess (Relation.rowIdeals lines) after.table.usedSet := by
      rw [← Rows.excess_image Incidence.injOn_rowAt, Incidence.image_rowAt]
    _ = after.table.excess := by
      rw [htable]
      exact hsurvivors.represents.excess_eq.symm

/-- All surviving lines may be kept. -/
theorem Filtered.coreRows_usedLines (h : Filtered lines settings after) :
    coreRows (usedLines after.table lines) = Finset.range after.table.usedSet.card := by
  obtain ⟨survivors, hsurvivors, -, -, htable⟩ := h.survivors
  have hstable : Rows.Stable (Relation.rowIdeals lines) after.table.usedSet := by
    rw [htable]
    exact hsurvivors.stable
  rw [coreRows, length_usedLines]
  apply Rows.core_eq_self
  rw [Rows.stable_congr fun place => h.rowIdeals_usedLines,
    ← Rows.stable_image Incidence.injOn_rowAt, Incidence.image_rowAt]
  exact hstable

/-- The surviving lines bring no ideals of their own. -/
theorem Filtered.allIdeals_usedLines_subset (h : Filtered lines settings after) :
    Incidence.allIdeals (usedLines after.table lines) ⊆ Incidence.allIdeals lines := by
  have hinside : after.table.usedSet ⊆ Finset.range lines.length := by
    intro row hrow
    rw [Finset.mem_range, ← h.size_eq]
    exact Incidence.lt_size_of_mem_usedSet hrow
  calc
    _ = Rows.referenced (fun place => Relation.rowIdeals lines (after.table.rowAt place))
          (Finset.range after.table.usedSet.card) := by
      rw [Incidence.allIdeals, length_usedLines]
      exact Rows.referenced_congr fun place => h.rowIdeals_usedLines
    _ = Rows.referenced (Relation.rowIdeals lines) after.table.usedSet := by
      rw [← Rows.referenced_image, Incidence.image_rowAt]
    _ ⊆ Incidence.allIdeals lines := Rows.referenced_mono hinside

/-! ## The second run -/

/-- With the surviving lines the final pass can succeed. -/
theorem Filtered.canFinish_usedLines (h : Filtered lines settings after)
    (hsettled : Settled lines settings after)
    (hrequired : settings.requiredExcess ≤ settings.keptExcess)
    (hfits : (Incidence.allIdeals (usedLines after.table lines)).card + settings.requiredExcess < 2 ^ 64) :
    CanFinish build (usedLines after.table lines) .none settings.requiredExcess settings.keptExcess
      (Incidence.new after.table.usedSet.card settings.blockCapacity) := by
  have hused : (Incidence.new after.table.usedSet.card settings.blockCapacity).usedSet =
      Finset.range after.table.usedSet.card := Incidence.usedSet_new _ _
  have hsize : (usedLines after.table lines).length =
      (Incidence.new after.table.usedSet.card settings.blockCapacity).size := by
    simp [length_usedLines, Incidence.new, Incidence.size]
  have hexcess := h.excess_usedLines
  have hpositive := h.positive
  have hkept := h.excess_eq
  have hleast := hsettled.required_le
  refine ⟨⟨hsize, ?_⟩, ?_, ?_⟩
  · intro place hplace
    rw [length_usedLines] at hplace
    have hsurvives := Incidence.rowAt_mem_usedSet hplace
    constructor
    · rwa [← hsize, length_usedLines]
    · intro _
      rw [h.getElem?_usedLines hplace]
      exact h.readable _ (h.size_eq ▸ Incidence.lt_size_of_mem_usedSet hsurvives)
    · intro _
      rw [Incidence.admitted_eq_of_admitAll rfl,
        h.rowIdeals_usedLines (Finset.mem_range.mpr hplace)]
      exact hsettled.short _ hsurvives
  · rw [Incidence.allIdeals, length_usedLines] at hfits
    rw [hused, Build.hasExcess_iff hfits]
    simp only [Rows.excess] at hexcess
    omega
  · have hcore := h.coreRows_usedLines
    rw [coreRows, length_usedLines] at hcore
    rw [hused, hcore, hexcess]
    omega

/-- Filtering the surviving lines leaves the table as it was, up to the numbers of the rows. -/
theorem Filtered.refiltered (h : Filtered lines settings after)
    {settings' : Settings} {after' : Reduction}
    (h' : Filtered (usedLines after.table lines) settings' after')
    (hkeep : settings'.keptExcess = settings.keptExcess) :
    usedLines after'.table (usedLines after.table lines) = usedLines after.table lines ∧
      after'.table.liveRows = after.table.liveRows ∧
      after'.table.liveIdeals = after.table.liveIdeals := by
  have hexcess : Rows.excess (Relation.rowIdeals (usedLines after.table lines))
      (coreRows (usedLines after.table lines)) = after.table.excess := by
    rw [h.coreRows_usedLines, h.excess_usedLines]
  have hkept := h.excess_eq
  have hkept' := h'.excess_eq
  rw [hexcess, hkeep] at hkept'
  have hused : after'.table.usedSet = Finset.range after.table.usedSet.card := by
    rw [h'.usedSet_eq (by omega), h.coreRows_usedLines]
  have hsize : after'.table.size = after.table.usedSet.card := by
    rw [h'.size_eq, length_usedLines]
  have hrows : after'.table.liveRows = after.table.liveRows := by
    rw [← h'.card_usedSet, ← h.card_usedSet, hused, Finset.card_range]
  refine ⟨?_, hrows, ?_⟩
  · rw [usedLines, Incidence.usedRows_of_usedSet_eq (by rw [hused, hsize]), hsize,
      ← length_usedLines after.table lines]
    exact map_getD_range _
  · simp only [Incidence.excess] at hkept hkept'
    omega

/-- Filtering the surviving lines succeeds, and what it leaves is copied and reported as before. -/
theorem Filtered.exists_refiltered (h : Filtered lines settings after) (build : Build) (cost : Cost)
    (hsettled : Settled lines settings after)
    (hrequired : settings.requiredExcess ≤ settings.keptExcess)
    (hkeep : settings.keptExcess < 2 ^ 63) (hcapacity : settings.blockCapacity ≤ 2 ^ 32)
    (hideals : (Incidence.allIdeals lines).card < 2 ^ 31) :
    let survivors := usedLines after.table lines
    let settings' := { settings with rows := after.table.usedSet.card }
    ∃ after', ((new build settings' cost).filter (.ofLines survivors)).Ends after' () ∧
      Filtered survivors settings' after' ∧
      copiedText after'.table survivors = copiedText after.table lines ∧
      rawReport after' = rawReport after := by
  intro survivors settings'
  have hsource : (Source.ofLines survivors).Yields survivors := Source.yields_ofLines survivors
  have hideals' : (Incidence.allIdeals survivors).card < 2 ^ 31 :=
    (Finset.card_le_card h.allIdeals_usedLines_subset).trans_lt hideals
  have hfits : (Incidence.allIdeals survivors).card + settings'.requiredExcess < 2 ^ 64 := by
    have hsame : settings'.requiredExcess = settings.requiredExcess := rfl
    omega
  obtain ⟨after', hends⟩ := exists_filtered build settings' cost hsource hkeep hcapacity hideals' hfits
    (h.canFinish_usedLines hsettled hrequired hfits)
  have hfiltered := filtered_of_ends build settings' cost hsource hkeep hcapacity hideals' hends
  have hsettled' := settled_of_ends build settings' cost hsource hkeep hcapacity hideals' hfits hends
  obtain ⟨hlines, hliveRows, hliveIdeals⟩ := h.refiltered hfiltered rfl
  have hpasses : after'.passes = after.passes := hsettled'.passes_eq.trans hsettled.passes_eq.symm
  refine ⟨after', hends, hfiltered, ?_, ?_⟩
  · rw [copiedText, hlines, copiedText]
  · simp only [rawReport, Incidence.excess, hliveRows, hliveIdeals, hpasses]

/-- A raw run writes the surviving lines as they are, and a raw run on them, which declares as many rows as
the first one has kept, reports the same and writes the same. -/
theorem run_raw_idempotent (build : Build) (settings : Settings) (cost : Cost) (lines : List String)
    (map : Option Sink) (hmap : ∀ sink ∈ map, sink = .empty none) (hraw : settings.raw = true)
    (hrequired : settings.requiredExcess ≤ settings.keptExcess)
    (hkeep : settings.keptExcess < 2 ^ 63) (hcapacity : settings.blockCapacity ≤ 2 ^ 32)
    (hideals : (Incidence.allIdeals lines).card < 2 ^ 31) (report : Report)
    (hok : (run ⟨new build settings cost, .empty none, map⟩ (.ofLines lines)).outcome =
      .ok report) :
    let first := (run ⟨new build settings cost, .empty none, map⟩ (.ofLines lines)).state
    let survivors := usedLines first.reduction.table lines
    let second := run ⟨new build { settings with rows := report.rows } cost, .empty none, map⟩
      (.ofLines survivors)
    survivors.Sublist lines ∧
      first.matrix.Holds (Text.terminated (survivors.map String.toList)) ∧
      second.outcome = .ok report ∧
      second.state.matrix = first.matrix := by
  have hsource := Source.yields_ofLines lines
  obtain ⟨after, hends⟩ := exists_filter_of_run hok
  have hfiltered := filtered_of_ends build settings cost hsource hkeep hcapacity hideals hends
  have hsettled := settled_of_ends build settings cost hsource hkeep hcapacity hideals (by omega) hends
  obtain ⟨output, hwrite, hholds, hused⟩ := hfiltered.exists_copy hsource hraw hmap
  have hrun := ends_run hends hwrite
  obtain rfl : rawReport after = report := by
    rw [hrun.2] at hok
    exact Except.ok.inj hok
  have hrows : (rawReport after).rows = after.table.usedSet.card := hfiltered.card_usedSet.symm
  rw [hrun.1]
  simp only [hrows, usedLines_congr hused lines]
  obtain ⟨after', hends', hfiltered', hcopied, hreport⟩ :=
    hfiltered.exists_refiltered build cost hsettled hrequired hkeep hcapacity hideals
  obtain ⟨output', hwrite', hholds', -⟩ :=
    hfiltered'.exists_copy (Source.yields_ofLines _) hraw hmap
  have hrun' := ends_run hends' hwrite'
  refine ⟨sublist_usedLines hfiltered.size_eq, hholds, hreport ▸ hrun'.2, ?_⟩
  rw [hcopied] at hholds'
  rw [hrun'.1]
  exact hholds'.unique hholds

theorem run_raw_idempotent_sample :
    let settings := { sampleSettings with raw := true }
    let filtered := (new .checked settings .rowFraction).filter (.ofLines Source.sampleLines)
    let report := rawReport filtered.state
    let first := run ⟨new .checked settings .rowFraction, .empty none, none⟩
      (.ofLines Source.sampleLines)
    let survivors := usedLines first.state.reduction.table Source.sampleLines
    let second := run
      ⟨new .checked { settings with rows := report.rows } .rowFraction, .empty none, none⟩
      (.ofLines survivors)
    first.outcome = .ok report ∧ second.outcome = .ok report ∧
      second.state.matrix = first.state.matrix := by
  intro settings filtered report
  have hsource := Source.yields_ofLines Source.sampleLines
  have hends : filtered.Ends filtered.state () := ⟨rfl, by decide +kernel⟩
  have hmap : ∀ sink ∈ (none : Option Sink), sink = .empty none := by simp
  obtain ⟨output, hwrite, -⟩ := (filtered_of_ends .checked settings .rowFraction hsource (by decide)
    (by decide) (by decide +kernel) hends).exists_copy hsource rfl hmap
  have hok := (ends_run hends hwrite).2
  have hidempotent := run_raw_idempotent .checked settings .rowFraction Source.sampleLines none hmap rfl
    (by decide) (by decide) (by decide) (by decide +kernel) report hok
  exact ⟨hok, hidempotent.2.2⟩

end

end Reduction

end SieveFilter
