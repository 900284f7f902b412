import SieveFilter.Proofs.Reduction.Failing
import SieveFilter.Proofs.Reduction.Filtering

/-!
# Stopping after the first pass

Filtering gives up when the excess is not positive after a pass that is not the final one.  The final pass
could not have succeeded from there.  It loads more ideals on the same rows, which does not raise the excess,
and although its removal of singletons might raise it again, there is nothing to remove unless the excess has
become negative: with an excess of zero before and after, no ideal was added to any row.
-/

namespace SieveFilter

namespace Rows

variable {κ : Type*} [DecidableEq κ] {rows : ℕ → List κ} {S : Finset ℕ} {p : κ → Bool}

/-- A core of restricted lists without positive excess has no stable part with positive excess, unless its
excess becomes negative among all lists. -/
theorem excess_core_core_restrict_nonpos
    (hstop : excess (restrict rows p) (core (restrict rows p) S) ≤ 0)
    (hnonneg : 0 ≤ excess rows (core (restrict rows p) S)) :
    excess rows (core rows (core (restrict rows p) S)) ≤ 0 := by
  have hle : excess rows (core (restrict rows p) S) ≤
      excess (restrict rows p) (core (restrict rows p) S) := excess_le_excess_restrict
  have hsame : ∀ row ∈ core (restrict rows p) S, restrict rows p row = rows row := by
    intro row hrow
    exact restrict_eq_of_excess_eq (by omega) hrow
  have hstable : Stable rows (core (restrict rows p) S) :=
    (stable_congr hsame).mp stable_core
  rw [core_eq_self hstable]
  exact hle.trans hstop

end Rows

namespace Reduction

/-- A reduction that has stopped, made ready for a pass over its rows. -/
def resumed (reduction : Reduction) : Reduction :=
  { reduction with table := reduction.table.releaseLists.resetRoster }

variable {build : Build} {settings : Settings} {cost : Cost} {source : Source} {lines : List String}

/-- Filtering that stops after a first pass for want of excess has loaded the table of that pass. -/
theorem stopped_of_fails_filter {reduction after : Reduction} {rows ideals : ℕ}
    (hrestricted : reduction.settings.initialBounds.admitAll = false)
    (hstop : (reduction.filter source).Fails after (.noExcess rows ideals))
    (hfirst : after.passes = reduction.passes + 1) :
    ∃ loaded summary,
      (reduction.table.load reduction.build reduction.settings.initialBounds
        (source reduction.readings)).Ends loaded summary ∧
      (loaded.prune reduction.settings.keptExcess false reduction.cost).table.excess ≤ 0 ∧
      after = reduction.stoppedAt
        (loaded.prune reduction.settings.keptExcess false reduction.cost).table := by
  rcases fails_filter.mp hstop with hpass | ⟨first, hends, -, hsecond⟩
  · rcases fails_pass hpass with ⟨loaded, hload, -⟩ | ⟨loaded, summary, hload, hstops⟩
    · exact (Incidence.ofLoading_of_fails_load hload).elim
    · rw [hrestricted] at hstops
      cases hstops with
      | noExcess hpruned hlow =>
        subst hpruned
        exact ⟨loaded, summary, hload, hlow, rfl⟩
  · have hpasses := passes_of_fails_pass hsecond
    obtain ⟨loaded, summary, -, -, -, -, rfl⟩ := ends_pass.mp hends
    simp only [afterPass] at hpasses
    omega

/-- The final pass does not succeed on the rows of a first pass that has left no excess, if the sum with the
required excess fits a word. -/
theorem not_canFinish_of_excess_nonpos {bounds : Bounds} {before after : Reduction}
    {required keep : ℕ} (h : Narrowed lines bounds before after)
    (hfits : (Rows.referenced (Relation.rowIdeals lines) after.table.usedSet).card + required < 2 ^ 64)
    (hlow : Rows.excess (Incidence.admitted lines bounds)
      (Rows.core (Incidence.admitted lines bounds) before.table.usedSet) ≤ 0) :
    ¬ CanFinish build lines .none required keep after.table.resetRoster := by
  rintro ⟨-, hinitial, hpositive⟩
  have hleast : (Rows.referenced (Relation.rowIdeals lines) after.table.usedSet).card + required ≤
      after.table.usedSet.card := (Build.hasExcess_iff hfits).mp hinitial
  have hnonneg : 0 ≤ Rows.excess (Relation.rowIdeals lines) after.table.usedSet := by
    rw [Rows.excess]
    omega
  have hused : after.table.resetRoster.usedSet =
      Rows.core (Incidence.admitted lines bounds) before.table.usedSet := h.usedSet_eq
  rw [h.usedSet_eq] at hnonneg
  rw [hused] at hpositive
  have hnone := Rows.excess_core_core_restrict_nonpos hlow hnonneg
  have hsome := (lt_min_iff.mp hpositive).2
  exact absurd hnone (Int.not_le.mpr hsome)

/-- Once the table of a pass is loaded, and the sum with the required excess fits a word, the pass succeeds or
fails at a check of the excess. -/
theorem pass_cases_of_load {reduction : Reduction} {bounds : Bounds} {loaded : Incidence}
    {summary : LoadSummary} (hkeep : reduction.settings.keptExcess < 2 ^ 63)
    (hload : (reduction.table.load reduction.build bounds (source reduction.readings)).Ends loaded
      summary)
    (hfits : loaded.liveIdeals + reduction.settings.requiredExcess < 2 ^ 64) :
    (reduction.pass source bounds).outcome = .ok () ∨
      (∃ rows ideals, (reduction.pass source bounds).outcome =
        .error (.initialExcess rows ideals reduction.settings.requiredExcess)) ∨
      ∃ rows ideals, (reduction.pass source bounds).outcome = .error (.noExcess rows ideals) := by
  rcases Run.ends_or_fails (reduction.pass source bounds) with ⟨_, hends⟩ | ⟨cause, hfails⟩
  · exact .inl hends.2
  rcases fails_pass hfails with ⟨other, hunloaded, -⟩ | ⟨other, summary', hother, hstops⟩
  · exact absurd hload hunloaded.not_ends
  · obtain ⟨rfl, -⟩ := hload.unique hother
    right
    rw [hfails.2]
    generalize (reduction.pass source bounds).state = after at hstops
    cases hstops with
    | sum hfinal hbreaks =>
      have hexact := reduction.build.sum?_of_lt (Build.words_eq ▸ hfits)
      exact absurd (hexact.symm.trans hbreaks) (Option.some_ne_none _)
    | initialExcess hfinal hsum hlow => exact .inl ⟨_, _, rfl⟩
    | pruning htraps hover =>
      rw [Incidence.overflow?_of_lt hkeep] at hover
      cases hover
    | noExcess hpruned hlow => exact .inr ⟨_, _, rfl⟩

/-- Where filtering stops after its first pass, the final pass from there would not have succeeded.  If it
could load its table, it would have failed at one of the checks of the excess. -/
theorem resumed_pass_fails (build : Build) (settings : Settings) (cost : Cost)
    (hsource : source.Yields lines)
    (hkeep : settings.keptExcess < 2 ^ 63) (hcapacity : settings.blockCapacity ≤ 2 ^ 32)
    (hideals : (Incidence.allIdeals lines).card < 2 ^ 31)
    (hrestricted : settings.initialBounds.admitAll = false) (rows ideals : ℕ)
    (hstop : ((new build settings cost).filter source).outcome = .error (.noExcess rows ideals))
    (hfirst : ((new build settings cost).filter source).state.passes = 1) :
    let stopped := ((new build settings cost).filter source).state
    (Rows.referenced (Relation.rowIdeals lines) stopped.table.usedSet).card +
        settings.requiredExcess < 2 ^ 64 →
      (stopped.resumed.pass source .none).outcome ≠ .ok () ∧
        ∀ summary, (stopped.resumed.load source .none).outcome = .ok summary →
          (∃ rows ideals, (stopped.resumed.pass source .none).outcome =
            .error (.initialExcess rows ideals settings.requiredExcess)) ∨
          ∃ rows ideals, (stopped.resumed.pass source .none).outcome = .error (.noExcess rows ideals) := by
  have hready : (new build settings cost).table.Ready := Incidence.ready_new _ _
  have hlaid := laid_new build cost hcapacity
  have hfew : (Incidence.allIdeals lines).card ≤ Arena.sentinel := hideals.le.trans (by decide)
  obtain ⟨loaded, summary, hload, hlow, hstate⟩ :=
    stopped_of_fails_filter hrestricted ⟨rfl, hstop⟩ hfirst
  obtain ⟨-, hloads⟩ := hready.loads_of_ends (hsource 0) hlaid hfew hload
  obtain ⟨hnarrowed, hexcess⟩ := narrowed_afterPass hloads
  rw [hexcess] at hlow
  intro stopped hfits
  -- The resumed reduction is the one that the final pass would have begun with after a positive excess.
  let first := (new build settings cost).afterPass false loaded
  let second := { first with table := first.table.resetRoster }
  have hresumed : stopped.resumed = second := by
    simp only [stopped, hstate]
    rfl
  have hused : stopped.table.usedSet = first.table.usedSet := congrArg (·.table.usedSet) hresumed
  have hreadySecond : second.table.Ready := hnarrowed.ready
  have hlaidSecond : second.table.arena.capacity ≤ Arena.maxCapacity := hnarrowed.capacity_eq ▸ hlaid
  rw [hused] at hfits
  rw [hresumed]
  have hfails : (second.pass source .none).outcome ≠ .ok () := by
    intro hok
    obtain ⟨after, hends⟩ := Run.exists_ends hok
    have hcan := (finished_of_ends hsource hreadySecond hlaidSecond hfew hkeep rfl hends).1
    exact not_canFinish_of_excess_nonpos hnarrowed hfits hlow hcan
  refine ⟨hfails, ?_⟩
  intro summary' hloaded
  obtain ⟨_, hends⟩ := Run.exists_ends hloaded
  obtain ⟨reloaded, hreload, -⟩ := ends_load.mp hends
  have hreloads := (hreadySecond.loads_of_ends (hsource _) hlaidSecond hfew hreload).2
  have hideals := hreloads.represents.liveIdeals_eq
  rw [Incidence.admitted_eq_of_admitAll rfl, hreloads.usedSet_eq] at hideals
  exact (pass_cases_of_load hkeep hreload (hideals ▸ hfits)).resolve_left hfails

/-- Two relations with the same two ideals: the first pass leaves them with an excess of zero. -/
theorem resumed_pass_fails_sample :
    let settings := { sampleSettings with
      rows := 2, leastRational := some 3, leastAlgebraic := some 3, requiredExcess := 0 }
    let source := Source.ofLines (Source.sampleLines.take 2)
    (((new .checked settings .rowFraction).filter source).state.resumed.pass source .none).outcome ≠
      .ok () :=
  (resumed_pass_fails .checked
    { sampleSettings with
      rows := 2, leastRational := some 3, leastAlgebraic := some 3, requiredExcess := 0 }
    .rowFraction (Source.yields_ofLines (Source.sampleLines.take 2)) (by decide) (by decide)
    (by decide +kernel) (by decide) 2 2 (by decide +kernel) (by decide +kernel)
    (by decide +kernel)).1

end Reduction

end SieveFilter
