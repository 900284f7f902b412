import SieveFilter.Proofs.Incidence.Tidiness
import SieveFilter.Proofs.Reduction.Failing
import SieveFilter.Proofs.Reduction.Filtering

/-!
# What passes keep

The final pass of a filtering begins with a blank table, so what it leaves can be written, whatever excess
was asked for and whatever was counted before.  Passes that fail leave a tidy table, on which passes can be
made again.
-/

namespace SieveFilter.Reduction

/-- What passes leave behind even where they fail: a tidy table, and the settings and the mark of completion as
they were. -/
structure Upholds (before after : Reduction) : Prop where
  tidy : after.table.Tidy
  settings_eq : after.settings = before.settings
  filtered_eq : after.filtered = before.filtered

section

variable {reduction after : Reduction} {source : Source} {lines : List String} {bounds : Bounds}

/-! ## One pass -/

/-- A loading leaves a tidy table, wherever it stops. -/
theorem tidy_load (htidy : reduction.table.Tidy) :
    (reduction.table.load reduction.build bounds (source reduction.readings)).state.Tidy :=
  htidy.of_sameRows (reduction.table.sameRows_load reduction.build bounds (source reduction.readings))

/-- Pruning leaves a tidy table of what a pass has loaded, also where it breaks off.  On the final pass this
needs right counts, and so a blank table to begin with. -/
theorem tidy_prune (htidy : reduction.table.Tidy)
    (hblank : bounds.admitAll = true → reduction.table.Blank) (hsource : source.Yields lines)
    (hfew : (Incidence.allIdeals lines).card ≤ Arena.sentinel) {loaded : Incidence}
    {summary : LoadSummary}
    (hload : (reduction.table.load reduction.build bounds (source reduction.readings)).Ends loaded
      summary)
    (keep : ℕ) (cost : Cost) :
    (loaded.prune keep bounds.admitAll cost).table.Tidy ∧
      ∀ stopped notices, loaded.overflow? keep bounds.admitAll cost = some (stopped, notices) →
        stopped.Tidy := by
  have hloaded : loaded.Tidy := hload.1 ▸ tidy_load htidy
  cases hall : bounds.admitAll with
  | false =>
    refine ⟨hloaded.deletes (loaded.deletes_prune_of_not_final keep cost), ?_⟩
    intro stopped notices hover
    rw [Incidence.overflow?_of_not_final] at hover
    cases hover
  | true =>
    obtain ⟨hloads, -⟩ := htidy.loads_of_ends (hblank hall) (hsource _) hfew hload
    have hconsistent := hloads.represents.consistent
    exact ⟨hloaded.deletes (hconsistent.deletes_prune keep true cost),
      fun stopped notices hover => hloaded.deletes (hconsistent.deletes_overflow hover)⟩

theorem upholds_pass (htidy : reduction.table.Tidy)
    (hblank : bounds.admitAll = true → reduction.table.Blank) (hsource : source.Yields lines)
    (hfew : (Incidence.allIdeals lines).card ≤ Arena.sentinel) :
    Upholds reduction (reduction.pass source bounds).state := by
  rcases Run.ends_or_fails (reduction.pass source bounds) with ⟨_, hends⟩ | ⟨cause, hfails⟩
  · obtain ⟨loaded, summary, hload, -, -, -, hafter⟩ := ends_pass.mp hends
    rw [hafter]
    exact ⟨(tidy_prune htidy hblank hsource hfew hload _ _).1.releaseLists, rfl, rfl⟩
  · rcases fails_pass hfails with ⟨loaded, hload, hafter⟩ | ⟨loaded, summary, hload, hstops⟩
    · rw [hafter]
      exact ⟨hload.1 ▸ tidy_load htidy, rfl, rfl⟩
    · have hloaded : loaded.Tidy := hload.1 ▸ tidy_load htidy
      obtain ⟨hpruned, hbroken⟩ := tidy_prune htidy hblank hsource hfew hload
        reduction.settings.keptExcess reduction.cost
      generalize (reduction.pass source bounds).state = stopped at hstops
      cases hstops with
      | sum hfinal hbreaks => exact ⟨hloaded, rfl, rfl⟩
      | initialExcess hfinal hsum hlow => exact ⟨hloaded, rfl, rfl⟩
      | pruning htraps hover => exact ⟨hbroken _ _ hover, rfl, rfl⟩
      | noExcess heq hlow => exact ⟨heq ▸ hpruned, rfl, rfl⟩

/-- What a final pass on a blank table leaves can be written. -/
theorem kept_of_ends_pass (htidy : reduction.table.Tidy) (hblank : reduction.table.Blank)
    (hsource : source.Yields lines) (hfew : (Incidence.allIdeals lines).card ≤ Arena.sentinel)
    (hall : bounds.admitAll = true) (hends : (reduction.pass source bounds).Ends after ()) :
    Kept lines { after with filtered := true } := by
  rw [ends_pass, hall] at hends
  obtain ⟨loaded, summary, hload, -, -, hpositive, rfl⟩ := hends
  obtain ⟨hloads, hloadable⟩ := htidy.loads_of_ends hblank (hsource _) hfew hload
  have hrepresents := hloads.represents
  rw [Incidence.admitted_eq_of_admitAll hall] at hrepresents
  have hconsistent := hrepresents.consistent
  have hremainder := (hconsistent.deletes_prune reduction.settings.keptExcess true
    reduction.cost).remainder hconsistent
  have hstable := hconsistent.stable_prune reduction.settings.keptExcess reduction.cost
  rw [hrepresents.stable_iff hremainder.usedSet_subset] at hstable
  simp only [afterPass]
  generalize (loaded.prune reduction.settings.keptExcess true reduction.cost).table = pruned at *
  have hused : pruned.usedSet ⊆ reduction.table.usedSet := by
    rw [← hloads.usedSet_eq]
    exact hremainder.usedSet_subset
  have hsome : pruned.usedSet.Nonempty := by
    rw [← Finset.card_pos, ← hremainder.consistent.liveRows_eq]
    exact Nat.zero_lt_of_lt (Incidence.excess_pos.mp hpositive)
  obtain ⟨hlength, hfits⟩ := hloadable (hsome.mono hused)
  refine ⟨⟨pruned, ⟨hrepresents.remainder hremainder, hstable⟩, ?_, ?_, rfl⟩, hpositive, ?_, ?_, rfl⟩
  · rw [Roster.known, hremainder.ideals_eq]
    exact hloads.known_subset
  · rw [hremainder.phase_eq, hloads.phase_eq, hblank.roster_eq]
    rfl
  · exact (hremainder.size_eq.trans hloads.size_eq).trans hlength.symm
  · intro row hrow
    have hin := Incidence.lt_size_of_mem_usedSet (hused hrow)
    exact (hfits row (hlength ▸ hin)).readable (hused hrow)

/-! ## All passes -/

/-- After a successful pass, the table is blank once its roster is emptied. -/
theorem blank_of_ends_pass (hends : (reduction.pass source bounds).Ends after ()) :
    after.table.resetRoster.Blank := by
  obtain ⟨loaded, summary, -, -, -, -, rfl⟩ := ends_pass.mp hends
  exact Incidence.blank_released _

/-- Filtering that succeeds leaves what can be written. -/
theorem kept_of_ends_filter (htidy : reduction.table.Tidy)
    (hblank : reduction.settings.initialBounds.admitAll = true → reduction.table.Blank)
    (hsource : source.Yields lines) (hfew : (Incidence.allIdeals lines).card ≤ Arena.sentinel)
    (hends : (reduction.filter source).Ends after ()) :
    Kept lines after ∧ after.settings = reduction.settings := by
  obtain ⟨first, hfirst, hrest⟩ := ends_filter.mp hends
  have hupholds := upholds_pass htidy hblank hsource hfew
  rw [hfirst.1] at hupholds
  split at hrest
  next hall =>
    subst hrest
    exact ⟨kept_of_ends_pass htidy (hblank hall) hsource hfew hall hfirst, hupholds.settings_eq⟩
  next =>
    obtain ⟨second, hsecond, rfl⟩ := hrest
    have htidyFirst : first.table.resetRoster.Tidy := ⟨hupholds.tidy.1, hupholds.tidy.2⟩
    have hblankFirst := blank_of_ends_pass hfirst
    refine ⟨kept_of_ends_pass htidyFirst hblankFirst hsource hfew rfl hsecond, ?_⟩
    obtain ⟨loaded, summary, -, -, -, -, rfl⟩ := ends_pass.mp hsecond
    exact hupholds.settings_eq

/-- Filtering that fails leaves a tidy table, and the passes are not marked as completed. -/
theorem upholds_of_fails_filter (htidy : reduction.table.Tidy)
    (hblank : reduction.settings.initialBounds.admitAll = true → reduction.table.Blank)
    (hsource : source.Yields lines) (hfew : (Incidence.allIdeals lines).card ≤ Arena.sentinel)
    {cause : Failure} (hfails : (reduction.filter source).Fails after cause) :
    Upholds reduction after := by
  have hupholds := upholds_pass htidy hblank hsource hfew
  rcases fails_filter.mp hfails with hfirst | ⟨first, hfirst, -, hsecond⟩
  · rw [hfirst.1] at hupholds
    exact hupholds
  · rw [hfirst.1] at hupholds
    have htidyFirst : first.table.resetRoster.Tidy := ⟨hupholds.tidy.1, hupholds.tidy.2⟩
    let reset : Reduction := { first with table := first.table.resetRoster }
    have hrest : Upholds reset (reset.pass source .none).state :=
      upholds_pass htidyFirst (fun _ => blank_of_ends_pass hfirst) hsource hfew
    rw [hsecond.1] at hrest
    exact ⟨hrest.tidy, hrest.settings_eq.trans hupholds.settings_eq,
      hrest.filtered_eq.trans hupholds.filtered_eq⟩

end

end SieveFilter.Reduction
