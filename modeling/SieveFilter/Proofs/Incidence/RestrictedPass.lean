import SieveFilter.Proofs.Incidence.Loading
import SieveFilter.Proofs.Incidence.Singletons

/-!
# Passes above higher bounds

A first pass that looks only at the ideals above some bounds, before the removal of singletons sees all of
them, saves storage and changes nothing: rows with a singleton among the ideals it looks at have a singleton
among all ideals, and the order of deletions does not matter.
-/

namespace SieveFilter.Incidence

/-- Loads a table and removes the rows with singletons. -/
def singletonPass (table : Incidence) (build : Build) (bounds : Bounds) (events : List Event) :
    Run Incidence Unit :=
  (table.load build bounds events).next fun table _ =>
    (Run.done table.removeSingletons.table ()).afterAll table.removeSingletons.notices

/-- A pass above the first bounds, and then, with nothing kept of it but the used rows, a pass above the
second bounds. -/
def twoPasses (table : Incidence) (build : Build) (bounds bounds' : Bounds)
    (events events' : List Event) : Run Incidence Unit :=
  (table.singletonPass build bounds events).next fun table _ =>
    table.releaseLists.resetRoster.singletonPass build bounds' events'

/-- The number of references to an ideal. -/
def keyCount (table : Incidence) (ideal : Ideal) : ℤ :=
  ((table.roster.slot? ideal).map table.count).getD 0

/-- Two tables agree up to the numbers of slots. -/
structure Agrees (table table' : Incidence) : Prop where
  used_eq : table.used = table'.used
  liveRows_eq : table.liveRows = table'.liveRows
  liveIdeals_eq : table.liveIdeals = table'.liveIdeals
  keyCount_eq : ∀ ideal, table.keyCount ideal = table'.keyCount ideal

theorem Represents.keyCount_eq {table : Incidence} {ideals : ℕ → List Ideal}
    (h : table.Represents ideals) (ideal : Ideal) :
    table.keyCount ideal = Rows.references ideals table.usedSet ideal := by
  unfold keyCount
  cases hslot : table.roster.slot? ideal with
  | some slot =>
    rw [Option.map_some, Option.getD_some]
    exact h.count_eq ((h.wellFormed.slot_iff ideal slot).mp hslot)
  | none =>
    have hnone : Rows.references ideals table.usedSet ideal = 0 := by
      rw [Rows.references_eq_zero_iff, Rows.mem_referenced]
      rintro ⟨row, hrow, hideal⟩
      obtain ⟨slot, -, hfound⟩ := h.exists_slot hrow hideal
      rw [(h.wellFormed.slot_iff ideal slot).mpr hfound] at hslot
      cases hslot
    rw [hnone]
    rfl

/-- Marks of the same number are determined by the positions that are marked. -/
theorem used_eq_of_usedSet_eq {table table' : Incidence} (hsize : table.size = table'.size)
    (hused : table.usedSet = table'.usedSet) : table.used = table'.used := by
  apply Array.ext hsize
  intro row hrow hrow'
  have hmem : row ∈ table.usedSet ↔ row ∈ table'.usedSet := by rw [hused]
  rw [mem_usedSet, mem_usedSet, ← Bool.eq_iff_iff] at hmem
  simpa [isUsed, Array.getD, hrow, hrow'] using hmem

/-- Tables with the same used rows that represent the same ideals agree. -/
theorem Represents.agrees {table table' : Incidence} {ideals : ℕ → List Ideal}
    (h : table.Represents ideals) (h' : table'.Represents ideals)
    (hsize : table.size = table'.size) (hused : table.usedSet = table'.usedSet) :
    Agrees table table' where
  used_eq := used_eq_of_usedSet_eq hsize hused
  liveRows_eq := by rw [h.consistent.liveRows_eq, h'.consistent.liveRows_eq, hused]
  liveIdeals_eq := by rw [h.liveIdeals_eq, h'.liveIdeals_eq, hused]
  keyCount_eq := fun ideal => by rw [h.keyCount_eq, h'.keyCount_eq, hused]

theorem getD_releaseLists (table : Incidence) (row : ℕ) :
    table.releaseLists.lists.getD row none = none := by
  simp only [releaseLists, Array.getD_eq_getD_getElem?, Array.getElem?_map]
  cases table.lists[row]? with
  | none => rfl
  | some handle => rfl

/-- Once its lists are released and its roster is emptied, a table is ready to be loaded again. -/
theorem Consistent.ready_released {table : Incidence} (h : table.Consistent) :
    table.releaseLists.resetRoster.Ready := by
  refine ⟨?_, getD_releaseLists table, Roster.wellFormed_empty, rfl, h.liveRows_eq⟩
  have hsize := h.lists_size
  simp only [size] at hsize
  simp [releaseLists, resetRoster, size, hsize]

section

variable {table : Incidence} {lines : List String} {build : Build} {bounds bounds' : Bounds}
  {events : List Event}

theorem ends_singletonPass {after : Incidence} :
    (table.singletonPass build bounds events).Ends after () ↔
      ∃ loaded summary, (table.load build bounds events).Ends loaded summary ∧
        loaded.removeSingletons.table = after := by
  simp only [singletonPass, Run.ends_next, Run.ends_afterAll, Run.ends_done, and_true]

/-- What the removal of singletons leaves of a table that was loaded: the core of its rows. -/
theorem Loads.removeSingletons {loaded : Incidence} (h : Loads lines bounds table loaded) :
    loaded.removeSingletons.table.Represents (admitted lines bounds) ∧
      loaded.removeSingletons.table.size = table.size ∧
      loaded.removeSingletons.table.arena.capacity = table.arena.capacity ∧
      loaded.removeSingletons.table.usedSet = Rows.core (admitted lines bounds) table.usedSet := by
  have hremainder := h.represents.consistent.remainder_removeSingletons
  refine ⟨h.represents.remainder hremainder, hremainder.size_eq.trans h.size_eq, ?_, ?_⟩
  · rw [hremainder.arena_eq, h.capacity_eq]
  · rw [h.represents.consistent.usedSet_removeSingletons,
      h.represents.core_eq (Finset.Subset.refl _), h.usedSet_eq]

/-- Of the ideals that lower bounds admit, higher bounds admit those that they admit at all. -/
theorem restrict_admitted (hrational : bounds'.rational ≤ bounds.rational)
    (halgebraic : bounds'.algebraic ≤ bounds.algebraic) :
    Rows.restrict (admitted lines bounds') bounds.admits = admitted lines bounds := by
  funext row
  simp only [admitted, Rows.restrict, List.filter_filter]
  apply List.filter_congr
  intro ideal _
  by_cases hadmits : bounds.admits ideal = true
  · simp [hadmits, Bounds.admits_mono hrational halgebraic hadmits]
  · simp [hadmits]

/-- A pass above higher bounds before the pass above the wanted ones changes nothing. -/
theorem twoPasses_agrees {source : Source} (hsource : source.Yields lines)
    (hready : table.Ready) (hcapacity : table.arena.capacity ≤ 2 ^ 32)
    (hideals : (allIdeals lines).card < 2 ^ 31)
    (hrational : bounds'.rational ≤ bounds.rational)
    (halgebraic : bounds'.algebraic ≤ bounds.algebraic)
    {loaded : Incidence} {summary : LoadSummary} (direct first second : ℕ)
    (hdirect : (table.load build bounds' (source direct)).Ends loaded summary) :
    ∃ final, (table.twoPasses build bounds bounds' (source first) (source second)).Ends final () ∧
      Agrees final loaded.removeSingletons.table := by
  have hlaid : table.arena.capacity ≤ Arena.maxCapacity :=
    hcapacity.trans (by decide)
  have hfew : (allIdeals lines).card ≤ Arena.sentinel :=
    hideals.le.trans (by decide)
  obtain ⟨hloadable, hloads⟩ := hready.loads_of_ends (hsource direct) hlaid hfew hdirect
  obtain ⟨hrepresents, hsize, -, hused⟩ := hloads.removeSingletons
  -- The first pass leaves the core of the lists restricted to the higher bounds.
  obtain ⟨restricted, _, hfirst, hloadsFirst⟩ := hready.exists_load (hsource first) hlaid hfew
    (hloadable.mono hrational halgebraic rfl (Finset.Subset.refl _) rfl)
  obtain ⟨hrepresentsFirst, hsizeFirst, hcapacityFirst, husedFirst⟩ :=
    hloadsFirst.removeSingletons
  have hpass := ends_singletonPass.mpr ⟨restricted, _, hfirst, rfl⟩
  generalize restricted.removeSingletons.table = between at *
  -- The second pass starts from these rows, and a core of that core is the core of all ideals.
  have hsizeSecond : between.releaseLists.resetRoster.size = table.size := hsizeFirst
  have hcapacitySecond : between.releaseLists.resetRoster.arena.capacity = table.arena.capacity :=
    hcapacityFirst
  have husedSecond : between.releaseLists.resetRoster.usedSet =
      Rows.core (Rows.restrict (admitted lines bounds') bounds.admits) table.usedSet := by
    rw [restrict_admitted hrational halgebraic]
    exact husedFirst
  obtain ⟨reloaded, _, hsecond, hloadsSecond⟩ :=
    hrepresentsFirst.consistent.ready_released.exists_load (hsource second)
      (hcapacitySecond ▸ hlaid) hfew
      (hloadable.mono (Nat.le_refl _) (Nat.le_refl _) hsizeSecond
        (husedSecond ▸ Rows.core_subset) hcapacitySecond)
  obtain ⟨hrepresentsFinal, hsizeFinal, -, husedFinal⟩ := hloadsSecond.removeSingletons
  refine ⟨reloaded.removeSingletons.table, hpass.next (ends_singletonPass.mpr ⟨_, _, hsecond, rfl⟩),
    hrepresentsFinal.agrees hrepresents ?_ ?_⟩
  · rw [hsizeFinal, hsizeSecond, hsize]
  · rw [husedFinal, husedSecond, Rows.core_core_restrict, hused]

theorem twoPasses_agrees_sample :
    ∃ final, ((new 5 100).twoPasses .checked ⟨7, 7⟩ .none (Source.ofLines Source.sampleLines 1)
      (Source.ofLines Source.sampleLines 2)).Ends final () ∧
    Agrees final ((new 5 100).load .checked .none
      (Source.ofLines Source.sampleLines 0)).state.removeSingletons.table := by
  have hok : ((new 5 100).load .checked .none (Source.ofLines Source.sampleLines 0)).outcome =
      .ok ⟨5, 5, 1⟩ := by
    decide +kernel
  exact twoPasses_agrees (Source.yields_ofLines Source.sampleLines) (ready_new 5 100) (by decide)
    (by decide +kernel) (Nat.zero_le _) (Nat.zero_le _) 0 1 2 ⟨rfl, hok⟩

end

end SieveFilter.Incidence
