import SieveFilter.Proofs.Incidence.RestrictedPass
import SieveFilter.Proofs.Incidence.Trimming
import SieveFilter.Reduction

/-!
# Passes

When one pass succeeds, and what it makes of the table.  A pass whose bounds do not admit every ideal leaves
the core of the rows it began with, looked at through the ideals it loads.  The final pass leaves rows of
the core with the smaller one of the kept excess and the excess of the core.
-/

namespace SieveFilter

namespace Build

/-- A number of rows is at least that of ideals and the required excess, as the build computes their sum. -/
def HasExcess (build : Build) (required rows ideals : ℕ) : Prop :=
  ∃ least, build.sum? ideals required = some least ∧ least ≤ rows

variable {build : Build} {required rows ideals : ℕ}

theorem words_eq : words = 2 ^ 64 := Nat.pow_eq

theorem hasExcess_iff (hfits : ideals + required < 2 ^ 64) :
    build.HasExcess required rows ideals ↔ ideals + required ≤ rows := by
  rw [HasExcess, build.sum?_of_lt (words_eq ▸ hfits)]
  simp

/-- Where sums are trapped, a sum that does not fit lets no number of rows pass. -/
theorem HasExcess.fits (h : build.HasExcess required rows ideals) (htraps : build.traps = true) :
    ideals + required < 2 ^ 64 := by
  obtain ⟨least, hsum, -⟩ := h
  by_contra hlarge
  rw [← words_eq] at hlarge
  simp [sum?, hlarge, htraps] at hsum

end Build

namespace Incidence

theorem excess_pos {table : Incidence} : 0 < table.excess ↔ table.liveIdeals < table.liveRows := by
  simp only [excess]
  omega

theorem excess_nonpos {table : Incidence} : table.excess ≤ 0 ↔ table.liveRows ≤ table.liveIdeals := by
  simp only [excess]
  omega

/-- The table represents rows of ideals, and every ideal of a used row counts for another one as well. -/
structure SingletonFree (ideals : ℕ → List Ideal) (table : Incidence) : Prop where
  represents : table.Represents ideals
  stable : Rows.Stable ideals table.usedSet

/-- What the final pass leaves of a set of rows. -/
structure Survivors (ideals : ℕ → List Ideal) (start : Finset ℕ) (keep : ℕ) (table : Incidence) :
    Prop where
  represents : table.Represents ideals
  subset_core : table.usedSet ⊆ Rows.core ideals start
  stable : Rows.Stable ideals table.usedSet
  excess_eq : table.excess = min (keep : ℤ) (Rows.excess ideals (Rows.core ideals start))
  eq_core : Rows.excess ideals (Rows.core ideals start) ≤ keep →
    table.usedSet = Rows.core ideals start

theorem Survivors.singletonFree {ideals : ℕ → List Ideal} {start : Finset ℕ} {keep : ℕ}
    {table : Incidence} (h : Survivors ideals start keep table) : SingletonFree ideals table :=
  ⟨h.represents, h.stable⟩

/-- What pruning leaves of a table on the final pass, said of the ideals that the table represents. -/
theorem Represents.survivors {table : Incidence} {ideals : ℕ → List Ideal}
    (h : table.Represents ideals) {keep : ℕ} (hkeep : keep < 2 ^ 63) (cost : Cost) :
    Survivors ideals table.usedSet keep (table.prune keep true cost).table := by
  have hremainder := (h.consistent.deletes_prune keep true cost).remainder h.consistent
  obtain ⟨hsubset, hstable, hexcess, hcore⟩ := h.consistent.pruned cost hkeep
  have hlists := h.core_eq (Finset.Subset.refl _)
  have hcoreUsed : Rows.core ideals table.usedSet ⊆ table.usedSet := Rows.core_subset
  rw [hlists] at hsubset hexcess hcore
  rw [h.excess_list_eq hcoreUsed] at hexcess hcore
  exact ⟨h.remainder hremainder, hsubset, (h.stable_iff hremainder.usedSet_subset).mp hstable,
    hexcess, hcore⟩

theorem Survivors.of_core_eq {table : Incidence} {ideals : ℕ → List Ideal} {start start' : Finset ℕ}
    {keep : ℕ} (h : Survivors ideals start keep table)
    (hcore : Rows.core ideals start = Rows.core ideals start') :
    Survivors ideals start' keep table :=
  ⟨h.represents, hcore ▸ h.subset_core, h.stable, hcore ▸ h.excess_eq, hcore ▸ h.eq_core⟩

/-- What pruning leaves of a loaded table on a pass that is not the final one: the core of its rows. -/
theorem Loads.prune_not_final {lines : List String} {bounds : Bounds} {table loaded : Incidence}
    (h : Loads lines bounds table loaded) (keep : ℕ) (cost : Cost) :
    (loaded.prune keep false cost).table.Represents (admitted lines bounds) ∧
      (loaded.prune keep false cost).table.usedSet =
        Rows.core (admitted lines bounds) table.usedSet := by
  have hconsistent := h.represents.consistent
  have hremainder := (hconsistent.deletes_prune keep false cost).remainder hconsistent
  refine ⟨h.represents.remainder hremainder, ?_⟩
  rw [hconsistent.usedSet_prune_of_not_final keep cost,
    h.represents.core_eq (Finset.Subset.refl _), h.usedSet_eq]

/-- Bounds that admit every ideal leave the rows as they are. -/
theorem admitted_eq_of_admitAll {bounds : Bounds} (hall : bounds.admitAll = true)
    (lines : List String) : admitted lines bounds = Relation.rowIdeals lines := by
  funext row
  exact List.filter_eq_self.mpr fun ideal _ => Bounds.admits_of_admitAll hall ideal

end Incidence

namespace Reduction

/-- A reduction starts where the machine has storage for its table. -/
theorem ends_start {machine : Machine} {settings : Settings} {cost : Cost} {state : Unit}
    {fresh : Reduction} :
    (start machine settings cost).Ends state fresh ↔
      machine.holds settings.rows settings.rosterCapacity = true ∧
        new machine.build settings cost = fresh := by
  simp only [start, Run.ends_afterAll]
  split
  next hholds => simp [Run.ends_done, hholds]
  next hnone => simp [Run.not_ends_fail, hnone]

theorem fails_start {machine : Machine} {settings : Settings} {cost : Cost} {state : Unit}
    {cause : Failure} :
    (start machine settings cost).Fails state cause ↔
      machine.holds settings.rows settings.rosterCapacity = false ∧ .breakdown = cause := by
  simp only [start, Run.fails_afterAll]
  split
  next hholds => simp [Run.not_fails_done, hholds]
  next hnone => simp [Run.fails_fail, hnone]

/-- No sum that the build traps overflows when a table is pruned. -/
def CanPrune (reduction : Reduction) (final : Bool) (table : Incidence) : Prop :=
  reduction.build.traps = true →
    table.overflow? reduction.settings.keptExcess final reduction.cost = none

theorem canPrune_of_lt {reduction : Reduction} (hkeep : reduction.settings.keptExcess < 2 ^ 63)
    (final : Bool) (table : Incidence) : reduction.CanPrune final table :=
  fun _ => Incidence.overflow?_of_lt hkeep final reduction.cost

theorem canPrune_of_not_final (reduction : Reduction) (table : Incidence) :
    reduction.CanPrune false table :=
  fun _ => Incidence.overflow?_of_not_final reduction.settings.keptExcess reduction.cost

/-- Pruning changes the table and nothing else. -/
theorem ends_prune {reduction after : Reduction} {final : Bool} {value : Unit} :
    (reduction.prune final).Ends after value ↔
      reduction.CanPrune final reduction.table ∧
        after = { reduction with
          table := (reduction.table.prune reduction.settings.keptExcess final reduction.cost).table } := by
  obtain ⟨build, settings, cost, table, passes, filtered, readings⟩ := reduction
  simp only [prune, CanPrune, Run.ends_after, Run.ends_next, Run.ends_within, Run.ends_done,
    Incidence.ends_pruneIn]
  constructor
  · rintro ⟨_, _, ⟨_, ⟨hfits, rfl, -⟩, rfl⟩, rfl, -⟩
    exact ⟨hfits, rfl⟩
  · rintro ⟨hfits, rfl⟩
    exact ⟨_, _, ⟨_, ⟨hfits, rfl, rfl⟩, rfl⟩, rfl, trivial⟩

/-- A table has the excess that the settings require. -/
def HasRequired (reduction : Reduction) (table : Incidence) : Prop :=
  reduction.build.HasExcess reduction.settings.requiredExcess table.liveRows table.liveIdeals

theorem ends_checkInitialExcess {reduction after : Reduction} {final : Bool} {value : Unit} :
    (reduction.checkInitialExcess final).Ends after value ↔
      (final = true → reduction.HasRequired reduction.table) ∧ reduction = after := by
  rw [checkInitialExcess, HasRequired, Build.HasExcess]
  cases final with
  | false => simp [Run.ends_done]
  | true =>
    cases hsum : reduction.build.sum? reduction.table.liveIdeals
        reduction.settings.requiredExcess with
    | none => simp [Run.not_ends_fail]
    | some least =>
      by_cases hlow : reduction.table.liveRows < least
      · simp [hlow, Run.not_ends_fail]
      · simp [hlow, Run.ends_done, Nat.not_lt.mp hlow]

theorem ends_checkExcess {reduction after : Reduction} {value : Unit} :
    reduction.checkExcess.Ends after value ↔
      reduction.table.liveIdeals < reduction.table.liveRows ∧ reduction = after := by
  simp only [checkExcess]
  split
  next hlow =>
    simp only [Run.not_ends_fail, false_iff, not_and]
    intro hlt
    omega
  next hhigh => simp [Nat.not_le.mp hhigh]

theorem ends_load {reduction after : Reduction} {source : Source} {bounds : Bounds}
    {summary : LoadSummary} :
    (reduction.load source bounds).Ends after summary ↔
      ∃ loaded,
        (reduction.table.load reduction.build bounds (source reduction.readings)).Ends loaded summary ∧
        after = { reduction with table := loaded, readings := reduction.readings + 1 } := by
  obtain ⟨build, settings, cost, table, passes, filtered, readings⟩ := reduction
  simp only [load, Run.ends_within, eq_comm]

/-- The reduction after a pass that has loaded a table. -/
def afterPass (reduction : Reduction) (final : Bool) (loaded : Incidence) : Reduction :=
  { reduction with
    table := (loaded.prune reduction.settings.keptExcess final reduction.cost).table.releaseLists
    passes := reduction.passes + 1
    readings := reduction.readings + 1 }

/-- A pass succeeds when its loading and its pruning do and both checks of the excess pass. -/
theorem ends_pass {reduction after : Reduction} {source : Source} {bounds : Bounds} :
    (reduction.pass source bounds).Ends after () ↔
      ∃ loaded summary,
        (reduction.table.load reduction.build bounds (source reduction.readings)).Ends loaded summary ∧
        (bounds.admitAll = true → reduction.HasRequired loaded) ∧
        reduction.CanPrune bounds.admitAll loaded ∧
        0 < (loaded.prune reduction.settings.keptExcess bounds.admitAll reduction.cost).table.excess ∧
        after = reduction.afterPass bounds.admitAll loaded := by
  obtain ⟨build, settings, cost, table, passes, filtered, readings⟩ := reduction
  simp only [pass, Run.ends_after, Run.ends_next, ends_load, ends_checkInitialExcess, ends_prune,
    ends_checkExcess, Run.ends_done]
  constructor
  · rintro ⟨_, summary, ⟨loaded, hload, rfl⟩, _, _, ⟨hinitial, rfl⟩, _, _, ⟨hprune, rfl⟩, _, _,
      ⟨hpositive, rfl⟩, rfl, -⟩
    exact ⟨loaded, summary, hload, hinitial, hprune, Incidence.excess_pos.mpr hpositive, rfl⟩
  · rintro ⟨loaded, summary, hload, hinitial, hprune, hpositive, rfl⟩
    exact ⟨_, summary, ⟨loaded, hload, rfl⟩, _, (), ⟨hinitial, rfl⟩, _, (), ⟨hprune, rfl⟩, _, (),
      ⟨Incidence.excess_pos.mp hpositive, rfl⟩, rfl, trivial⟩

section

variable {reduction : Reduction} {source : Source} {lines : List String} {bounds : Bounds}

/-! ## Passes above bounds -/

/-- A pass above bounds can succeed: the table can be loaded, and the core has a positive excess. -/
def CanNarrow (lines : List String) (bounds : Bounds) (table : Incidence) : Prop :=
  Incidence.Loadable lines bounds table ∧
    0 < Rows.excess (Incidence.admitted lines bounds)
      (Rows.core (Incidence.admitted lines bounds) table.usedSet)

/-- What a pass above bounds leaves for the final pass: a table that is ready, with the core of its rows
still used. -/
structure Narrowed (lines : List String) (bounds : Bounds) (before after : Reduction) : Prop where
  ready : after.table.resetRoster.Ready
  usedSet_eq : after.table.usedSet =
    Rows.core (Incidence.admitted lines bounds) before.table.usedSet
  size_eq : after.table.size = before.table.size
  capacity_eq : after.table.arena.capacity = before.table.arena.capacity
  build_eq : after.build = before.build
  settings_eq : after.settings = before.settings
  readings_eq : after.readings = before.readings + 1
  passes_eq : after.passes = before.passes + 1

theorem narrowed_afterPass {loaded : Incidence}
    (h : Incidence.Loads lines bounds reduction.table loaded) :
    Narrowed lines bounds reduction (reduction.afterPass false loaded) ∧
      (loaded.prune reduction.settings.keptExcess false reduction.cost).table.excess =
        Rows.excess (Incidence.admitted lines bounds)
          (Rows.core (Incidence.admitted lines bounds) reduction.table.usedSet) := by
  have hconsistent := h.represents.consistent
  have hremainder := (hconsistent.deletes_prune reduction.settings.keptExcess false
    reduction.cost).remainder hconsistent
  obtain ⟨hrepresents, hused⟩ := h.prune_not_final reduction.settings.keptExcess reduction.cost
  simp only [afterPass]
  generalize (loaded.prune reduction.settings.keptExcess false reduction.cost).table = pruned at *
  refine ⟨⟨hrepresents.consistent.ready_released, hused, ?_, ?_, rfl, rfl, rfl, rfl⟩, ?_⟩
  · exact hremainder.size_eq.trans h.size_eq
  · exact (congrArg Arena.capacity hremainder.arena_eq).trans h.capacity_eq
  · rw [hrepresents.excess_eq, hused]

theorem exists_narrowed (hsource : source.Yields lines) (hready : reduction.table.Ready)
    (hlaid : reduction.table.arena.capacity ≤ Arena.maxCapacity)
    (hfew : (Incidence.allIdeals lines).card ≤ Arena.sentinel)
    (hrestricted : bounds.admitAll = false)
    (hcan : CanNarrow lines bounds reduction.table) :
    ∃ after, (reduction.pass source bounds).Ends after () ∧
      Narrowed lines bounds reduction after := by
  obtain ⟨loaded, summary, hload, hloads⟩ :=
    hready.exists_load (hsource reduction.readings) hlaid hfew hcan.1
  obtain ⟨hnarrowed, hexcess⟩ := narrowed_afterPass hloads
  refine ⟨reduction.afterPass false loaded, ?_, hnarrowed⟩
  rw [ends_pass, hrestricted]
  exact ⟨loaded, summary, hload, fun hfinal => absurd hfinal Bool.false_ne_true,
    reduction.canPrune_of_not_final loaded, hexcess ▸ hcan.2, rfl⟩

theorem narrowed_of_ends (hsource : source.Yields lines) (hready : reduction.table.Ready)
    (hlaid : reduction.table.arena.capacity ≤ Arena.maxCapacity)
    (hfew : (Incidence.allIdeals lines).card ≤ Arena.sentinel)
    (hrestricted : bounds.admitAll = false) {after : Reduction}
    (hends : (reduction.pass source bounds).Ends after ()) :
    CanNarrow lines bounds reduction.table ∧ Narrowed lines bounds reduction after := by
  rw [ends_pass, hrestricted] at hends
  obtain ⟨loaded, summary, hload, -, -, hpositive, rfl⟩ := hends
  obtain ⟨hloadable, hloads⟩ :=
    hready.loads_of_ends (hsource reduction.readings) hlaid hfew hload
  obtain ⟨hnarrowed, hexcess⟩ := narrowed_afterPass hloads
  exact ⟨⟨hloadable, hexcess ▸ hpositive⟩, hnarrowed⟩

/-! ## The final pass -/

/-- The final pass can succeed: the table can be loaded, the excess of its rows is at least the required
one, and what is kept of the excess of the core is positive. -/
def CanFinish (build : Build) (lines : List String) (bounds : Bounds) (required keep : ℕ)
    (table : Incidence) : Prop :=
  Incidence.Loadable lines bounds table ∧
    build.HasExcess required table.usedSet.card
      (Rows.referenced (Relation.rowIdeals lines) table.usedSet).card ∧
    0 < min (keep : ℤ) (Rows.excess (Relation.rowIdeals lines)
      (Rows.core (Relation.rowIdeals lines) table.usedSet))

/-- What the final pass leaves: the survivors, with their lists released. -/
structure Finished (lines : List String) (before after : Reduction) : Prop where
  survivors : ∃ survivors, Incidence.Survivors (Relation.rowIdeals lines) before.table.usedSet
    before.settings.keptExcess survivors ∧ survivors.roster.known ⊆ Incidence.allIdeals lines ∧
    survivors.roster.phase = before.table.roster.phase ∧
    after.table = survivors.releaseLists
  size_eq : after.table.size = before.table.size
  build_eq : after.build = before.build
  settings_eq : after.settings = before.settings
  readings_eq : after.readings = before.readings + 1
  passes_eq : after.passes = before.passes + 1

theorem finished_afterPass {loaded : Incidence}
    (h : Incidence.Loads lines bounds reduction.table loaded) (hall : bounds.admitAll = true)
    (hkeep : reduction.settings.keptExcess < 2 ^ 63) :
    Finished lines reduction (reduction.afterPass true loaded) ∧
      (loaded.prune reduction.settings.keptExcess true reduction.cost).table.excess =
        min (reduction.settings.keptExcess : ℤ) (Rows.excess (Relation.rowIdeals lines)
          (Rows.core (Relation.rowIdeals lines) reduction.table.usedSet)) := by
  have hrepresents := h.represents
  rw [Incidence.admitted_eq_of_admitAll hall] at hrepresents
  have hremainder := (hrepresents.consistent.deletes_prune reduction.settings.keptExcess true
    reduction.cost).remainder hrepresents.consistent
  have hsurvivors := hrepresents.survivors hkeep reduction.cost
  rw [h.usedSet_eq] at hsurvivors
  simp only [afterPass]
  generalize (loaded.prune reduction.settings.keptExcess true reduction.cost).table = pruned at *
  refine ⟨⟨⟨pruned, hsurvivors, ?_, ?_, rfl⟩, ?_, rfl, rfl, rfl, rfl⟩, hsurvivors.excess_eq⟩
  · rw [Roster.known, hremainder.ideals_eq]
    exact h.known_subset
  · exact hremainder.phase_eq.trans h.phase_eq
  · exact hremainder.size_eq.trans h.size_eq

/-- The check of the initial excess is about the rows that the final pass begins with. -/
theorem initialExcess_iff {loaded : Incidence}
    (h : Incidence.Loads lines bounds reduction.table loaded) (hall : bounds.admitAll = true) :
    reduction.HasRequired loaded ↔
      reduction.build.HasExcess reduction.settings.requiredExcess reduction.table.usedSet.card
        (Rows.referenced (Relation.rowIdeals lines) reduction.table.usedSet).card := by
  have hrows := h.represents.consistent.liveRows_eq
  have hideals := h.represents.liveIdeals_eq
  rw [Incidence.admitted_eq_of_admitAll hall, h.usedSet_eq] at hideals
  rw [HasRequired, hrows, hideals, h.usedSet_eq]

theorem exists_finished (reduction : Reduction) (hsource : source.Yields lines)
    (hready : reduction.table.Ready)
    (hlaid : reduction.table.arena.capacity ≤ Arena.maxCapacity)
    (hfew : (Incidence.allIdeals lines).card ≤ Arena.sentinel)
    (hkeep : reduction.settings.keptExcess < 2 ^ 63) (hall : bounds.admitAll = true)
    (hcan : CanFinish reduction.build lines bounds reduction.settings.requiredExcess
      reduction.settings.keptExcess reduction.table) :
    ∃ after, (reduction.pass source bounds).Ends after () ∧ Finished lines reduction after := by
  obtain ⟨hloadable, hinitial, hpositive⟩ := hcan
  obtain ⟨loaded, summary, hload, hloads⟩ :=
    hready.exists_load (hsource reduction.readings) hlaid hfew hloadable
  obtain ⟨hfinished, hexcess⟩ := finished_afterPass hloads hall hkeep
  refine ⟨reduction.afterPass true loaded, ?_, hfinished⟩
  rw [ends_pass, hall]
  exact ⟨loaded, summary, hload, fun _ => (initialExcess_iff hloads hall).mpr hinitial,
    canPrune_of_lt hkeep true loaded, hexcess ▸ hpositive, rfl⟩

theorem finished_of_ends (hsource : source.Yields lines) (hready : reduction.table.Ready)
    (hlaid : reduction.table.arena.capacity ≤ Arena.maxCapacity)
    (hfew : (Incidence.allIdeals lines).card ≤ Arena.sentinel)
    (hkeep : reduction.settings.keptExcess < 2 ^ 63) (hall : bounds.admitAll = true)
    {after : Reduction} (hends : (reduction.pass source bounds).Ends after ()) :
    CanFinish reduction.build lines bounds reduction.settings.requiredExcess
        reduction.settings.keptExcess reduction.table ∧
      Finished lines reduction after := by
  rw [ends_pass, hall] at hends
  obtain ⟨loaded, summary, hload, hinitial, -, hpositive, rfl⟩ := hends
  obtain ⟨hloadable, hloads⟩ :=
    hready.loads_of_ends (hsource reduction.readings) hlaid hfew hload
  obtain ⟨hfinished, hexcess⟩ := finished_afterPass hloads hall hkeep
  exact ⟨⟨hloadable, (initialExcess_iff hloads hall).mp (hinitial rfl), hexcess ▸ hpositive⟩,
    hfinished⟩

end

/-! ## All passes -/

/-- The final pass follows the first one unless the first one is final. -/
theorem ends_filter {reduction after : Reduction} {source : Source} :
    (reduction.filter source).Ends after () ↔
      ∃ first, (reduction.pass source reduction.settings.initialBounds).Ends first () ∧
        if reduction.settings.initialBounds.admitAll then after = { first with filtered := true }
        else ∃ second,
          ({ first with table := first.table.resetRoster }.pass source .none).Ends second () ∧
            after = { second with filtered := true } := by
  simp only [filter, Run.ends_next, Run.ends_after]
  by_cases hall : reduction.settings.initialBounds.admitAll = true
  · simp only [hall, if_true, complete, Run.ends_done]
    constructor
    · rintro ⟨first, _, hfirst, rfl, -⟩
      exact ⟨first, hfirst, rfl⟩
    · rintro ⟨first, hfirst, rfl⟩
      exact ⟨first, (), hfirst, rfl, trivial⟩
  · simp only [hall, complete]
    constructor
    · rintro ⟨first, _, hfirst, hrest⟩
      obtain ⟨second, _, hsecond, hdone⟩ := Run.ends_next.mp hrest
      obtain ⟨rfl, -⟩ := Run.ends_done.mp hdone
      exact ⟨first, hfirst, second, hsecond, rfl⟩
    · rintro ⟨first, hfirst, second, hsecond, rfl⟩
      exact ⟨first, (), hfirst, hsecond.next (Run.ends_done.mpr ⟨rfl, rfl⟩)⟩

end Reduction

end SieveFilter
