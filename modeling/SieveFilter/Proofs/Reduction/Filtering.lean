import SieveFilter.Proofs.Reduction.Passes
import Mathlib.Data.Set.Card

/-!
# Filtering

What the passes of a fresh reduction come to.  The rows that filtering may keep are the greatest recurrent
set of rows, in which every ideal of a row occurs in another row as well.  Of its excess filtering keeps as
much as it is asked to, whatever the bounds of the first pass and the cost of clusters.
-/

namespace SieveFilter.Reduction

/-- Every ideal that counts for a row of the set counts for another row of the set as well. -/
def Recurrent (lines : List String) (rows : Finset ℕ) : Prop :=
  ∀ row ∈ rows, ∀ ideal, Relation.CountsIn lines row ideal →
    ∃ other ∈ rows, other ≠ row ∧ Relation.CountsIn lines other ideal

/-- The rows that filtering may keep. -/
def coreRows (lines : List String) : Finset ℕ :=
  Rows.core (Relation.rowIdeals lines) (Finset.range lines.length)

/-- The number of ideals that count for rows of a set. -/
noncomputable def idealCount (lines : List String) (rows : Finset ℕ) : ℕ :=
  Set.ncard {ideal | ∃ row ∈ rows, Relation.CountsIn lines row ideal}

theorem idealCount_eq (lines : List String) (rows : Finset ℕ) :
    idealCount lines rows = (Rows.referenced (Relation.rowIdeals lines) rows).card := by
  rw [idealCount, ← Set.ncard_coe_finset]
  congr 1
  ext ideal
  simp only [Set.mem_ofPred_eq, Finset.mem_coe, Rows.mem_referenced, Relation.mem_rowIdeals]

/-- Recurrent sets are the stable ones, since no row lists an ideal twice. -/
theorem recurrent_iff_stable {lines : List String} {rows : Finset ℕ} :
    Recurrent lines rows ↔ Rows.Stable (Relation.rowIdeals lines) rows := by
  rw [Rows.stable_iff_two_le fun row _ => Relation.nodup_rowIdeals lines row]
  simp only [Recurrent, ← Relation.mem_rowIdeals]
  apply forall₂_congr
  intro row hrow
  apply forall₂_congr
  intro ideal hideal
  have hmem : row ∈ rows.filter fun other => ideal ∈ Relation.rowIdeals lines other :=
    Finset.mem_filter.mpr ⟨hrow, hideal⟩
  constructor
  · rintro ⟨other, hother, hne, hshared⟩
    exact Finset.one_lt_card.mpr
      ⟨row, hmem, other, Finset.mem_filter.mpr ⟨hother, hshared⟩, hne.symm⟩
  · intro htwo
    obtain ⟨other, hother, hne⟩ := Finset.exists_mem_ne htwo row
    obtain ⟨hin, hshared⟩ := Finset.mem_filter.mp hother
    exact ⟨other, hin, hne, hshared⟩

theorem isGreatest_coreRows (lines : List String) :
    IsGreatest {rows | rows ⊆ Finset.range lines.length ∧ Recurrent lines rows}
      (coreRows lines) := by
  simp only [recurrent_iff_stable]
  exact Rows.isGreatest_core

/-! ## Successful filtering -/

/-- What filtering leaves of a fresh reduction. -/
structure Filtered (lines : List String) (settings : Settings) (after : Reduction) : Prop where
  survivors : ∃ survivors, Incidence.Survivors (Relation.rowIdeals lines)
    (Finset.range lines.length) settings.keptExcess survivors ∧
    survivors.roster.known ⊆ Incidence.allIdeals lines ∧
    survivors.roster.phase = .counting ∧ after.table = survivors.releaseLists
  positive : 0 < after.table.excess
  size_eq : after.table.size = lines.length
  readable : ∀ row < lines.length,
    ∃ line relation, lines[row]? = some line ∧ Relation.ofLine line = .ok relation
  settings_eq : after.settings = settings
  filtered_eq : after.filtered = true

/-- What successful passes leave to be written, whatever was asked of them: used rows without singletons and
with a positive excess, whose lines can be read. -/
structure Kept (lines : List String) (after : Reduction) : Prop where
  survivors : ∃ survivors, Incidence.SingletonFree (Relation.rowIdeals lines) survivors ∧
    survivors.roster.known ⊆ Incidence.allIdeals lines ∧
    survivors.roster.phase = .counting ∧ after.table = survivors.releaseLists
  positive : 0 < after.table.excess
  size_eq : after.table.size = lines.length
  readable : ∀ row ∈ after.table.usedSet,
    ∃ line relation, lines[row]? = some line ∧ Relation.ofLine line = .ok relation
  filtered_eq : after.filtered = true

theorem Filtered.kept {lines : List String} {settings : Settings} {after : Reduction}
    (h : Filtered lines settings after) : Kept lines after := by
  obtain ⟨⟨survivors, hsurvivors, hknown, hphase, htable⟩, hpositive, hsize, hreadable, -,
    hfiltered⟩ := h
  refine ⟨⟨survivors, hsurvivors.singletonFree, hknown, hphase, htable⟩, hpositive, hsize, ?_,
    hfiltered⟩
  intro row hrow
  exact hreadable row (hsize ▸ Incidence.lt_size_of_mem_usedSet hrow)

section

variable {build : Build} {settings : Settings} {cost : Cost} {source : Source} {lines : List String}

theorem laid_new (build : Build) (cost : Cost) (hcapacity : settings.blockCapacity ≤ 2 ^ 32) :
    (new build settings cost).table.arena.capacity ≤ Arena.maxCapacity := by
  have hmax : max settings.blockCapacity 1 ≤ 2 ^ 32 := max_le hcapacity (by decide)
  exact hmax.trans (by decide)

theorem size_new (build : Build) (settings : Settings) (cost : Cost) :
    (new build settings cost).table.size = settings.rows := by
  simp [new, Incidence.new, Incidence.size]

theorem usedSet_new (build : Build) (settings : Settings) (cost : Cost) :
    (new build settings cost).table.usedSet = Finset.range settings.rows :=
  Incidence.usedSet_new _ _

/-- Where a fresh table can be loaded, all lines can be read. -/
theorem readable_of_loadable {bounds : Bounds}
    (hloadable : Incidence.Loadable lines bounds (new build settings cost).table) :
    ∀ row < lines.length,
      ∃ line relation, lines[row]? = some line ∧ Relation.ofLine line = .ok relation := by
  intro row hrow
  have hfits := hloadable.2 row hrow
  have hlength : lines.length = settings.rows := hloadable.1.trans (size_new build settings cost)
  apply hfits.readable
  rw [usedSet_new, Finset.mem_range]
  omega

/-- The passes that filtering makes. -/
def passCount (settings : Settings) : ℕ :=
  if settings.initialBounds.admitAll then 1 else 2

/-- The final pass of a successful filtering, from `before` to `last`. -/
structure FinalPass (build : Build) (lines : List String) (settings : Settings) (bounds : Bounds)
    (before last : Reduction) : Prop where
  all : bounds.admitAll = true
  can : CanFinish build lines bounds settings.requiredExcess settings.keptExcess before.table
  finished : Finished lines before last
  core_eq : Rows.core (Relation.rowIdeals lines) before.table.usedSet = coreRows lines
  readable : ∀ row < lines.length,
    ∃ line relation, lines[row]? = some line ∧ Relation.ofLine line = .ok relation
  capacity_eq : before.table.arena.capacity = max settings.blockCapacity 1
  phase_eq : before.table.roster.phase = .counting
  settings_eq : before.settings = settings
  passes_eq : before.passes + 1 = passCount settings

/-- Filtering of a fresh reduction that succeeds has made its final pass, either at once or on the core that
the first pass has left of the restricted lists. -/
theorem exists_finalPass (build : Build) (settings : Settings) (cost : Cost) (hsource : source.Yields lines)
    (hkeep : settings.keptExcess < 2 ^ 63) (hcapacity : settings.blockCapacity ≤ 2 ^ 32)
    (hideals : (Incidence.allIdeals lines).card < 2 ^ 31)
    {after : Reduction} (hends : ((new build settings cost).filter source).Ends after ()) :
    ∃ bounds before last, FinalPass build lines settings bounds before last ∧
      after = { last with filtered := true } := by
  have hready : (new build settings cost).table.Ready := Incidence.ready_new _ _
  have hlaid := laid_new build cost hcapacity
  have hfew : (Incidence.allIdeals lines).card ≤ Arena.sentinel := hideals.le.trans (by decide)
  have hused := usedSet_new build settings cost
  obtain ⟨first, hfirst, hrest⟩ := ends_filter.mp hends
  split at hrest
  next hall =>
    obtain ⟨hcan, hfinished⟩ := finished_of_ends hsource hready hlaid hfew hkeep hall hfirst
    have hlength : lines.length = settings.rows := hcan.1.1.trans (size_new build settings cost)
    refine ⟨_, _, first, ⟨hall, hcan, hfinished, ?_, readable_of_loadable hcan.1, rfl, rfl, rfl,
      (if_pos hall).symm⟩, hrest⟩
    rw [hused, coreRows, hlength]
  next hrestricted =>
    obtain ⟨second, hsecond, rfl⟩ := hrest
    obtain ⟨hcanNarrow, hnarrowed⟩ := narrowed_of_ends hsource hready hlaid hfew
      (Bool.eq_false_iff.mpr hrestricted) hfirst
    obtain ⟨hcan, hfinished⟩ := finished_of_ends hsource hnarrowed.ready
      (hnarrowed.capacity_eq ▸ hlaid) hfew (by rw [hnarrowed.settings_eq]; exact hkeep) rfl hsecond
    have hcanFinal : CanFinish build lines .none settings.requiredExcess settings.keptExcess
        first.table.resetRoster := by
      rw [hnarrowed.build_eq, hnarrowed.settings_eq] at hcan
      exact hcan
    have hlength : lines.length = settings.rows := hcanNarrow.1.1.trans (size_new build settings cost)
    have husedSecond : first.table.resetRoster.usedSet =
        Rows.core (Incidence.admitted lines settings.initialBounds)
          (Finset.range lines.length) := by
      rw [hlength, ← hused]
      exact hnarrowed.usedSet_eq
    have hpasses : first.passes + 1 = passCount settings :=
      (congrArg (· + 1) hnarrowed.passes_eq).trans (if_neg hrestricted).symm
    refine ⟨.none, _, second, ⟨rfl, hcanFinal, hfinished, ?_, readable_of_loadable hcanNarrow.1,
      hnarrowed.capacity_eq, rfl, hnarrowed.settings_eq, hpasses⟩, rfl⟩
    rw [husedSecond, coreRows]
    exact Rows.core_core_restrict

theorem FinalPass.filtered {bounds : Bounds} {before last : Reduction}
    (h : FinalPass build lines settings bounds before last) :
    Filtered lines settings { last with filtered := true } := by
  obtain ⟨⟨survivors, hsurvivors, hknown, hsamePhase, htable⟩, hsize, -, hsettings, -, -⟩ := h.finished
  obtain ⟨hloadable, -, hpositive⟩ := h.can
  have hexcess : last.table.excess = survivors.excess := by rw [htable]; rfl
  rw [h.settings_eq] at hsurvivors hsettings
  refine ⟨⟨survivors, hsurvivors.of_core_eq h.core_eq, hknown, hsamePhase.trans h.phase_eq, htable⟩,
    ?_, ?_, h.readable, hsettings, rfl⟩
  · rw [hexcess, hsurvivors.excess_eq]
    exact hpositive
  · exact hsize.trans hloadable.1.symm

/-- What successful filtering of a fresh reduction comes to. -/
theorem filtered_of_ends (build : Build) (settings : Settings) (cost : Cost) (hsource : source.Yields lines)
    (hkeep : settings.keptExcess < 2 ^ 63) (hcapacity : settings.blockCapacity ≤ 2 ^ 32)
    (hideals : (Incidence.allIdeals lines).card < 2 ^ 31)
    {after : Reduction} (hends : ((new build settings cost).filter source).Ends after ()) :
    Filtered lines settings after := by
  obtain ⟨bounds, before, last, hfinal, rfl⟩ :=
    exists_finalPass build settings cost hsource hkeep hcapacity hideals hends
  exact hfinal.filtered

/-- Filtering keeps rows of the core only, in which every ideal still occurs twice.  The final excess is the
smaller one of the excess asked for and that of the core, and the whole core is kept if its excess is not
above the one asked for. -/
theorem filter_keeps_excess_of_core (build : Build) (settings : Settings) (cost : Cost)
    (hsource : source.Yields lines)
    (hkeep : settings.keptExcess < 2 ^ 63) (hcapacity : settings.blockCapacity ≤ 2 ^ 32)
    (hideals : (Incidence.allIdeals lines).card < 2 ^ 31)
    (hok : ((new build settings cost).filter source).outcome = .ok ()) :
    let table := ((new build settings cost).filter source).state.table
    let core := coreRows lines
    let coreExcess : ℤ := core.card - idealCount lines core
    IsGreatest {rows | rows ⊆ Finset.range lines.length ∧ Recurrent lines rows} core ∧
      table.usedSet ⊆ core ∧
      Recurrent lines table.usedSet ∧
      (table.liveRows : ℤ) - table.liveIdeals = min (settings.keptExcess : ℤ) coreExcess ∧
      1 ≤ (table.liveRows : ℤ) - table.liveIdeals ∧
      (coreExcess ≤ settings.keptExcess → table.usedSet = core) := by
  obtain ⟨after, hends⟩ := Run.exists_ends hok
  obtain ⟨⟨survivors, hsurvivors, -, -, htable⟩, hpositive, -, -, -, -⟩ :=
    filtered_of_ends build settings cost hsource hkeep hcapacity hideals hends
  have hused : after.table.usedSet = survivors.usedSet := by rw [htable]; rfl
  have hexcess : after.table.excess = survivors.excess := by rw [htable]; rfl
  have hcore : ((coreRows lines).card : ℤ) - idealCount lines (coreRows lines) =
      Rows.excess (Relation.rowIdeals lines) (coreRows lines) := by
    rw [idealCount_eq, Rows.excess]
  rw [hends.1]
  simp only [hcore]
  refine ⟨isGreatest_coreRows lines, ?_, ?_, ?_, hpositive, ?_⟩
  · rw [hused]
    exact hsurvivors.subset_core
  · rw [hused, recurrent_iff_stable]
    exact hsurvivors.stable
  · exact hexcess.trans hsurvivors.excess_eq
  · intro hle
    rw [hused]
    exact hsurvivors.eq_core hle

end

/-- Settings for the sample input, with a first pass above the bound seven on both sides. -/
def sampleSettings : Settings :=
  { Settings.default with
    rows := 5
    leastRational := some 7
    leastAlgebraic := some 7
    blockCapacity := 100 }

theorem filter_keeps_excess_of_core_sample :
    let table := ((new .checked sampleSettings .rowFraction).filter
      (.ofLines Source.sampleLines)).state.table
    table.usedSet ⊆ coreRows Source.sampleLines ∧ 1 ≤ (table.liveRows : ℤ) - table.liveIdeals := by
  have hfiltered := filter_keeps_excess_of_core .checked sampleSettings .rowFraction
    (Source.yields_ofLines Source.sampleLines) (by decide) (by decide) (by decide +kernel)
    (by decide +kernel)
  exact ⟨hfiltered.2.1, hfiltered.2.2.2.2.1⟩

end SieveFilter.Reduction
