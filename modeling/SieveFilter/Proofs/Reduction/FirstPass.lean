import SieveFilter.Proofs.Reduction.Filtering

/-!
# Bounds of the first pass

Where filtering without a restricted first pass succeeds, it succeeds with any bounds of the first pass, and
with the same excess.  The restricted pass only takes out rows that the final pass would take out too, which
does not lower the excess, and looking at fewer ideals does not lower it either.
-/

namespace SieveFilter

namespace Rows

variable {κ : Type*} [DecidableEq κ] {rows : ℕ → List κ} {S : Finset ℕ} {p : κ → Bool}

/-- The core of restricted lists has at least the excess of the whole set. -/
theorem excess_le_excess_core_restrict :
    excess rows S ≤ excess rows (core (restrict rows p) S) :=
  peels_core.of_restrict.excess_le

/-- The core of restricted lists has a positive excess if the core has one, unless the whole set has a
negative one.  In the boundary case of an excess of zero the restriction has left out nothing. -/
theorem excess_pos_core_restrict (hnonneg : 0 ≤ excess rows S)
    (hpos : 0 < excess rows (core rows S)) :
    0 < excess (restrict rows p) (core (restrict rows p) S) := by
  by_contra hzero
  have hrestrict : excess rows S ≤ excess (restrict rows p) S := excess_le_excess_restrict
  have hcore : excess (restrict rows p) S ≤
      excess (restrict rows p) (core (restrict rows p) S) := excess_le_excess_core
  have hsame : ∀ row ∈ S, restrict rows p row = rows row := fun row hrow =>
    restrict_eq_of_excess_eq (by omega) hrow
  have hcoreSame : core (restrict rows p) S = core rows S := core_congr hsame
  have hexcessSame : excess (restrict rows p) (core rows S) = excess rows (core rows S) :=
    excess_congr fun row hrow => hsame row (core_subset hrow)
  rw [hcoreSame, hexcessSame] at hzero
  exact hzero hpos

end Rows

namespace Reduction

variable {build : Build} {settings : Settings} {cost : Cost} {source : Source} {lines : List String}

/-- The excess that filtering ends with depends on the lines and on the excess asked for. -/
theorem Filtered.excess_eq {after : Reduction} (h : Filtered lines settings after) :
    after.table.excess = min (settings.keptExcess : ℤ)
      (Rows.excess (Relation.rowIdeals lines) (coreRows lines)) := by
  obtain ⟨survivors, hsurvivors, -, -, htable⟩ := h.survivors
  have hexcess : after.table.excess = survivors.excess := by rw [htable]; rfl
  exact hexcess.trans hsurvivors.excess_eq

/-- The whole core is kept if its excess is not above the one asked for. -/
theorem Filtered.usedSet_eq {after : Reduction} (h : Filtered lines settings after)
    (hle : Rows.excess (Relation.rowIdeals lines) (coreRows lines) ≤ settings.keptExcess) :
    after.table.usedSet = coreRows lines := by
  obtain ⟨survivors, hsurvivors, -, -, htable⟩ := h.survivors
  rw [htable]
  exact hsurvivors.eq_core hle

/-- Among all ideals, the core of restricted lists has the excess that is required of all rows, as any build
computes it from sums that fit. -/
theorem hasExcess_core_restrict {required : ℕ} {rows : Finset ℕ} {bounds : Bounds}
    (hfits : (Rows.referenced (Relation.rowIdeals lines) rows).card + required < 2 ^ 64)
    (h : build.HasExcess required rows.card (Rows.referenced (Relation.rowIdeals lines) rows).card) :
    let core := Rows.core (Incidence.admitted lines bounds) rows
    build.HasExcess required core.card (Rows.referenced (Relation.rowIdeals lines) core).card := by
  intro core
  have hsubset : core ⊆ rows := Rows.core_subset
  have hcard : (Rows.referenced (Relation.rowIdeals lines) core).card ≤
      (Rows.referenced (Relation.rowIdeals lines) rows).card :=
    Finset.card_le_card (Rows.referenced_mono hsubset)
  have hexcess : Rows.excess (Relation.rowIdeals lines) rows ≤
      Rows.excess (Relation.rowIdeals lines) core := Rows.excess_le_excess_core_restrict
  rw [Build.hasExcess_iff hfits] at h
  rw [Build.hasExcess_iff (by omega)]
  simp only [Rows.excess] at hexcess
  omega

/-- A pass above bounds does not keep the final pass from succeeding. -/
theorem Narrowed.canFinish {bounds : Bounds} {before after : Reduction}
    (h : Narrowed lines bounds before after)
    (hfits : (Rows.referenced (Relation.rowIdeals lines) before.table.usedSet).card +
      before.settings.requiredExcess < 2 ^ 64)
    (hcan : CanFinish before.build lines .none before.settings.requiredExcess
      before.settings.keptExcess before.table) :
    CanFinish after.build lines .none after.settings.requiredExcess after.settings.keptExcess
      after.table.resetRoster := by
  obtain ⟨hloadable, hinitial, hpositive⟩ := hcan
  have hused : after.table.resetRoster.usedSet =
      Rows.core (Incidence.admitted lines bounds) before.table.usedSet := h.usedSet_eq
  rw [h.build_eq, h.settings_eq]
  refine ⟨?_, ?_, ?_⟩
  · have hsize : after.table.resetRoster.size = before.table.size := h.size_eq
    apply hloadable.mono (Nat.le_refl _) (Nat.le_refl _) hsize
    · exact hused.subset.trans Rows.core_subset
    · exact h.capacity_eq
  · rw [hused]
    exact hasExcess_core_restrict hfits hinitial
  · rw [hused]
    unfold Incidence.admitted
    rw [Rows.core_core_restrict]
    exact hpositive

/-- The ideals of all rows of a fresh table that can be loaded are those of the input. -/
theorem referenced_new {bounds : Bounds}
    (hloadable : Incidence.Loadable lines bounds (new build settings cost).table) :
    Rows.referenced (Relation.rowIdeals lines) (new build settings cost).table.usedSet =
      Incidence.allIdeals lines := by
  have hlength : lines.length = settings.rows := hloadable.1.trans (size_new build settings cost)
  rw [usedSet_new, Incidence.allIdeals, hlength]

/-- Filtering succeeds when the final pass can succeed with all rows of the input, and the sum with the required
excess fits a word. -/
theorem exists_filtered (build : Build) (settings : Settings) (cost : Cost) (hsource : source.Yields lines)
    (hkeep : settings.keptExcess < 2 ^ 63)
    (hcapacity : settings.blockCapacity ≤ 2 ^ 32)
    (hideals : (Incidence.allIdeals lines).card < 2 ^ 31)
    (hfits : (Incidence.allIdeals lines).card + settings.requiredExcess < 2 ^ 64)
    (hcan : CanFinish build lines .none settings.requiredExcess settings.keptExcess
      (Incidence.new settings.rows settings.blockCapacity)) :
    ∃ after, ((new build settings cost).filter source).Ends after () := by
  have hready : (new build settings cost).table.Ready := Incidence.ready_new _ _
  have hlaid := laid_new build cost hcapacity
  have hfew : (Incidence.allIdeals lines).card ≤ Arena.sentinel := hideals.le.trans (by decide)
  change CanFinish build lines .none settings.requiredExcess settings.keptExcess
    (new build settings cost).table at hcan
  have hreferenced : Rows.referenced (Relation.rowIdeals lines) (new build settings cost).table.usedSet =
      Incidence.allIdeals lines := referenced_new hcan.1
  have hloadableFirst : Incidence.Loadable lines settings.initialBounds
      (new build settings cost).table :=
    hcan.1.mono (Nat.zero_le _) (Nat.zero_le _) rfl (Finset.Subset.refl _) rfl
  by_cases hall : (new build settings cost).settings.initialBounds.admitAll = true
  · obtain ⟨first, hfirst, -⟩ := exists_finished _ hsource hready hlaid hfew hkeep hall
      ⟨hloadableFirst, hcan.2⟩
    exact ⟨{ first with filtered := true }, ends_filter.mpr ⟨first, hfirst, by rw [if_pos hall]⟩⟩
  · have hpositiveCore := (lt_min_iff.mp hcan.2.2).2
    have hleast := (Build.hasExcess_iff (hreferenced ▸ hfits)).mp hcan.2.1
    have hnonneg : 0 ≤ Rows.excess (Relation.rowIdeals lines) (new build settings cost).table.usedSet := by
      rw [Rows.excess]
      omega
    obtain ⟨first, hfirst, hnarrowed⟩ := exists_narrowed hsource hready hlaid hfew
      (Bool.eq_false_iff.mpr hall)
      ⟨hloadableFirst, Rows.excess_pos_core_restrict hnonneg hpositiveCore⟩
    have hkeepSecond : first.settings.keptExcess < 2 ^ 63 := by
      rw [hnarrowed.settings_eq]
      exact hkeep
    obtain ⟨second, hsecond, -⟩ := exists_finished
      { first with table := first.table.resetRoster } hsource hnarrowed.ready
      (hnarrowed.capacity_eq ▸ hlaid) hfew hkeepSecond rfl
      (hnarrowed.canFinish (hreferenced ▸ hfits) hcan)
    exact ⟨{ second with filtered := true },
      ends_filter.mpr ⟨first, hfirst, by rw [if_neg hall]; exact ⟨second, hsecond, rfl⟩⟩⟩

/-- Where filtering succeeds without a restricted first pass, the final pass can succeed with all rows. -/
theorem canFinish_of_unrestricted (hsource : source.Yields lines)
    (hkeep : settings.keptExcess < 2 ^ 63) (hcapacity : settings.blockCapacity ≤ 2 ^ 32)
    (hideals : (Incidence.allIdeals lines).card < 2 ^ 31)
    (hbounds : settings.initialBounds = .none)
    (hok : ((new build settings cost).filter source).outcome = .ok ()) :
    CanFinish build lines .none settings.requiredExcess settings.keptExcess
      (Incidence.new settings.rows settings.blockCapacity) := by
  have hfew : (Incidence.allIdeals lines).card ≤ Arena.sentinel := hideals.le.trans (by decide)
  obtain ⟨after, hends⟩ := Run.exists_ends hok
  obtain ⟨first, hfirst, -⟩ := ends_filter.mp hends
  have hbounds' : (new build settings cost).settings.initialBounds = .none := hbounds
  rw [hbounds'] at hfirst
  exact (finished_of_ends hsource (Incidence.ready_new _ _) (laid_new build cost hcapacity) hfew hkeep rfl
    hfirst).1

/-- Bounds of the first pass never make filtering fail that succeeds without a restricted first pass, and
neither they nor the cost change the final excess, provided that the number of ideals and the required excess
have a sum that fits a word or that such sums are trapped. -/
theorem filter_ok_of_unrestricted (build : Build) (settings : Settings) (cost cost' : Cost)
    (hsource : source.Yields lines)
    (hkeep : settings.keptExcess < 2 ^ 63) (hcapacity : settings.blockCapacity ≤ 2 ^ 32)
    (hideals : (Incidence.allIdeals lines).card < 2 ^ 31)
    (hfits : build.traps = true ∨
      (Incidence.allIdeals lines).card + settings.requiredExcess < 2 ^ 64)
    (hbounds : settings.initialBounds = .none)
    (hok : ((new build settings cost).filter source).outcome = .ok ())
    (leastRational leastAlgebraic : Option ℕ) (rationalBase algebraicBase : ℕ) :
    let settings' :=
      { settings with leastRational, leastAlgebraic, rationalBase, algebraicBase }
    ((new build settings' cost').filter source).outcome = .ok () ∧
      ((new build settings' cost').filter source).state.table.excess =
        ((new build settings cost).filter source).state.table.excess := by
  have hcan := canFinish_of_unrestricted hsource hkeep hcapacity hideals hbounds hok
  have hsum : (Incidence.allIdeals lines).card + settings.requiredExcess < 2 ^ 64 := by
    rcases hfits with htraps | hfits
    · have hfresh : CanFinish build lines .none settings.requiredExcess settings.keptExcess
          (new build settings cost).table := hcan
      rw [← referenced_new hfresh.1]
      exact hfresh.2.1.fits htraps
    · exact hfits
  obtain ⟨after, hends⟩ := Run.exists_ends hok
  have hfiltered := filtered_of_ends build settings cost hsource hkeep hcapacity hideals hends
  intro settings'
  obtain ⟨after', hends'⟩ :=
    exists_filtered build settings' cost' hsource hkeep hcapacity hideals hsum hcan
  have hfiltered' := filtered_of_ends build settings' cost' hsource hkeep hcapacity hideals hends'
  refine ⟨hends'.2, ?_⟩
  rw [hends.1, hends'.1, hfiltered.excess_eq, hfiltered'.excess_eq]

theorem filter_ok_of_unrestricted_sample :
    ((new .checked sampleSettings .blend).filter (.ofLines Source.sampleLines)).outcome = .ok () :=
  (filter_ok_of_unrestricted
    .checked { sampleSettings with leastRational := some 0, leastAlgebraic := some 0 } .rowFraction .blend
    (Source.yields_ofLines Source.sampleLines) (by decide) (by decide) (by decide +kernel) (.inl rfl) rfl
    (by decide +kernel) (some 7) (some 7) 0 0).1

end Reduction

end SieveFilter
