import SieveFilter.Proofs.Reduction.Limits

/-!
# Passes that are run again

Where assertions are not tested, nothing keeps a caller from running the passes again after they have failed
or succeeded.  The final pass then counts on what is left in the roster, unless a first pass above bounds has
cleared it away, and doubled counts hide the singletons.  A matrix that is written has a positive excess and
every column twice if the passes are asked for once, and have not failed before unless they begin above
bounds.
-/

namespace SieveFilter.Reduction

/-- The passes are not completed, and nothing is left in the table that the final pass would count again. -/
structure Unspoiled (reduction : Reduction) : Prop where
  unfiltered : reduction.filtered = false
  blank : reduction.settings.initialBounds.admitAll = true → reduction.table.Blank

/-- What calls keep that run the passes on an unspoiled reduction only: until the passes are completed the
table is tidy, and then it can be written, or its columns are given. -/
structure Sound (lines : List String) (settings : Settings) (reduction : Reduction) : Prop where
  settings_eq : reduction.settings = settings
  tidy : reduction.filtered = false → reduction.table.Tidy
  kept : reduction.filtered = true →
    Kept lines reduction ∨ reduction.table.roster.phase = .renumbered

section

variable {settings : Settings} {source : Source} {lines : List String} {reduction after : Reduction}

theorem sound_new (build : Build) (settings : Settings) (cost : Cost) (lines : List String) :
    Sound lines settings (new build settings cost) where
  settings_eq := rfl
  tidy := fun _ => Incidence.tidy_new settings.rows settings.blockCapacity
  kept := fun hfiltered => absurd hfiltered Bool.false_ne_true

theorem unspoiled_new (build : Build) (settings : Settings) (cost : Cost) :
    (new build settings cost).Unspoiled where
  unfiltered := rfl
  blank := fun _ => Incidence.blank_new settings.rows settings.blockCapacity

/-- A build that tests its assertions breaks a filtering off where the roster is not empty. -/
theorem filter_of_asserts (hasserts : reduction.build.asserts = true)
    (hleft : reduction.table.roster.size ≠ 0) (source : Source) :
    (reduction.filter source).Fails
      { reduction with passes := reduction.passes + 1, readings := reduction.readings + 1 }
      .breakdown := by
  obtain ⟨build, settings, cost, table, passes, filtered, readings⟩ := reduction
  have htable (bounds : Bounds) :
      (table.load build bounds (source readings)).Fails table .breakdown :=
    Incidence.fails_load.mpr (.inl ⟨⟨hasserts, hleft⟩, rfl, rfl⟩)
  refine fails_filter.mpr (.inl ?_)
  rw [pass, Run.fails_after]
  exact Run.fails_next.mpr (.inl (fails_load.mpr ⟨table, htable _, rfl⟩))

/-! ## One call -/

theorem Sound.kept_of_ends_filter (h : Sound lines settings reduction)
    (hclear : reduction.Unspoiled) (hsource : source.Yields lines)
    (hfew : (Incidence.allIdeals lines).card ≤ Arena.sentinel)
    (hends : (reduction.filter source).Ends after ()) :
    Kept lines after ∧ after.settings = settings := by
  obtain ⟨hkept, hsettings⟩ :=
    Reduction.kept_of_ends_filter (h.tidy hclear.unfiltered) hclear.blank hsource hfew hends
  exact ⟨hkept, hsettings.trans h.settings_eq⟩

theorem Sound.filter (h : Sound lines settings reduction) (hclear : reduction.Unspoiled)
    (hsource : source.Yields lines) (hfew : (Incidence.allIdeals lines).card ≤ Arena.sentinel) :
    Sound lines settings (reduction.filter source).state := by
  rcases Run.ends_or_fails (reduction.filter source) with ⟨_, hends⟩ | ⟨cause, hfails⟩
  · obtain ⟨hkept, hsettings⟩ := h.kept_of_ends_filter hclear hsource hfew hends
    refine ⟨hsettings, ?_, fun _ => .inl hkept⟩
    intro hunfiltered
    exact absurd (hkept.filtered_eq.symm.trans hunfiltered) Bool.false_ne_true.symm
  · have hupholds := upholds_of_fails_filter (h.tidy hclear.unfiltered) hclear.blank hsource hfew hfails
    refine ⟨hupholds.settings_eq.trans h.settings_eq, fun _ => hupholds.tidy, ?_⟩
    intro hfiltered
    have hunfiltered := hupholds.filtered_eq.trans hclear.unfiltered
    exact absurd (hunfiltered.symm.trans hfiltered) Bool.false_ne_true

/-- A write that runs the passes goes on as one after them. -/
theorem write_of_ends_filter (hunfiltered : reduction.filtered = false)
    (hends : (reduction.filter source).Ends after ()) (hfiltered : after.filtered = true)
    (matrix : Sink) (map : Option Sink) :
    (write ⟨reduction, matrix, map⟩ source).SameResult (write ⟨after, matrix, map⟩ source) := by
  have hensure : (ensureFiltered ⟨reduction, matrix, map⟩ source).Ends ⟨after, matrix, map⟩ () := by
    simp only [ensureFiltered, hunfiltered]
    exact hends.within _
  have hafter : (ensureFiltered ⟨after, matrix, map⟩ source).Ends ⟨after, matrix, map⟩ () :=
    (ends_ensureFiltered ⟨after, matrix, map⟩ source hfiltered).1
  have hbefore := hensure.next_eq fun output _ =>
    (renumber output).next fun output columns => writeRows output source columns
  have hagain := hafter.next_eq fun output _ =>
    (renumber output).next fun output columns => writeRows output source columns
  exact hbefore.trans hagain.symm

/-- A write whose passes fail fails with them. -/
theorem write_of_fails_filter (hunfiltered : reduction.filtered = false) {cause : Failure}
    (hfails : (reduction.filter source).Fails after cause) (matrix : Sink) (map : Option Sink) :
    (write ⟨reduction, matrix, map⟩ source).Fails ⟨after, matrix, map⟩ cause := by
  refine Run.fails_next.mpr (.inl ?_)
  simp only [ensureFiltered, hunfiltered]
  exact Run.fails_within.mpr ⟨after, hfails, rfl⟩

/-- A write after the passes gives the columns. -/
theorem Sound.write_of_filtered (h : Sound lines settings reduction)
    (hfiltered : reduction.filtered = true) (matrix : Sink) (map : Option Sink) :
    Sound lines settings (write ⟨reduction, matrix, map⟩ source).state.reduction := by
  obtain ⟨hafter, hphase⟩ := renumbered_after_write ⟨reduction, matrix, map⟩ hfiltered source
  have houtput : (Output.mk reduction matrix map).reduction.filtered = true := hfiltered
  obtain ⟨roster, readings, -, hstate⟩ := write_of_filtered_state houtput source
  refine ⟨?_, ?_, fun _ => .inr hphase⟩
  · rw [hstate]
    exact h.settings_eq
  · intro hunfiltered
    exact absurd (hafter.symm.trans hunfiltered) Bool.false_ne_true.symm

/-- A sound reduction whose passes are not completed is unspoiled if they begin above bounds. -/
theorem Sound.unspoiled (h : Sound lines settings reduction)
    (hagain : settings.initialBounds.admitAll = false ∨ reduction.filtered = true)
    (hunfiltered : reduction.filtered = false) : reduction.Unspoiled := by
  rcases hagain with hrestricted | hfiltered
  · refine ⟨hunfiltered, fun hall => ?_⟩
    rw [h.settings_eq, hrestricted] at hall
    exact absurd hall Bool.false_ne_true
  · exact absurd (hunfiltered.symm.trans hfiltered) Bool.false_ne_true

/-- A write that runs the passes, on an unspoiled reduction, is sound. -/
theorem Sound.write (h : Sound lines settings reduction)
    (hclear : reduction.filtered = false → reduction.Unspoiled) (hsource : source.Yields lines)
    (hfew : (Incidence.allIdeals lines).card ≤ Arena.sentinel) (matrix : Sink) (map : Option Sink) :
    Sound lines settings (Reduction.write ⟨reduction, matrix, map⟩ source).state.reduction := by
  cases hfiltered : reduction.filtered with
  | true => exact h.write_of_filtered hfiltered matrix map
  | false =>
    have hunspoiled := hclear hfiltered
    have hsound := h.filter hunspoiled hsource hfew
    rcases Run.ends_or_fails (reduction.filter source) with ⟨_, hends⟩ | ⟨cause, hfails⟩
    · obtain ⟨hkept, -⟩ := h.kept_of_ends_filter hunspoiled hsource hfew hends
      rw [(write_of_ends_filter hfiltered hends hkept.filtered_eq matrix map).1]
      exact hsound.write_of_filtered hkept.filtered_eq matrix map
    · rw [(write_of_fails_filter hfiltered hfails matrix map).1]
      exact hsound

/-! ## All calls -/

/-- A first call is sound, and completes the passes if they can be completed. -/
theorem sound_first (build : Build) (settings : Settings) (cost : Cost) (hsource : source.Yields lines)
    (hfew : (Incidence.allIdeals lines).card ≤ Arena.sentinel) (call : Call) :
    Sound lines settings (call.apply source (new build settings cost)) ∧
      (((new build settings cost).filter source).outcome = .ok () →
        (call.apply source (new build settings cost)).filtered = true) := by
  have hsound := sound_new build settings cost lines
  have hunspoiled := unspoiled_new build settings cost
  cases call with
  | filter =>
    refine ⟨hsound.filter hunspoiled hsource hfew, fun hok => ?_⟩
    obtain ⟨after, hends⟩ := Run.exists_ends hok
    exact filtered_of_ends_filter ⟨rfl, hok⟩
  | write matrix map =>
    refine ⟨hsound.write (fun _ => hunspoiled) hsource hfew matrix map, fun hok => ?_⟩
    have hfiltered : ((new build settings cost).filter source).state.filtered = true :=
      filtered_of_ends_filter ⟨rfl, hok⟩
    simp only [Call.apply]
    rw [(write_of_ends_filter rfl ⟨rfl, hok⟩ hfiltered matrix map).1]
    exact (renumbered_after_write ⟨_, matrix, map⟩ hfiltered source).1

/-- Writes keep a reduction sound if the passes begin above bounds or are completed. -/
theorem Sound.afterWrites (h : Sound lines settings reduction)
    (hagain : settings.initialBounds.admitAll = false ∨ reduction.filtered = true)
    (hsource : source.Yields lines) (hfew : (Incidence.allIdeals lines).card ≤ Arena.sentinel)
    {calls : List Call} (hcalls : .filter ∉ calls) :
    Sound lines settings (afterCalls source reduction calls) ∧
      (settings.initialBounds.admitAll = false ∨
        (afterCalls source reduction calls).filtered = true) := by
  induction calls generalizing reduction with
  | nil => exact ⟨h, hagain⟩
  | cons call rest ih =>
    obtain ⟨hcall, hrest⟩ := not_or.mp (mt List.mem_cons.mpr hcalls)
    cases call with
    | filter => exact absurd rfl hcall
    | write matrix map =>
      have hwrite := h.write (h.unspoiled hagain) hsource hfew matrix map
      refine ih hwrite (hagain.imp_right fun hfiltered => ?_) hrest
      exact (renumbered_after_write ⟨reduction, matrix, map⟩ hfiltered source).1

/-! ## What is written -/

/-- What a successful write has written of a kept reduction: a matrix with a positive excess and with every
column in two lines. -/
theorem Kept.written_of_ok (h : Kept lines reduction) (hraw : reduction.settings.raw = false)
    (hsource : source.Yields lines) (hfew : (Incidence.allIdeals lines).card ≤ Arena.sentinel)
    {limit : Option ℕ} {limits : Option (Option ℕ)} {report : Report}
    (hok : (write ⟨reduction, .empty limit, limits.map Sink.empty⟩ source).outcome = .ok report) :
    1 ≤ report.excess ∧ ∃ text matrix,
      (write ⟨reduction, .empty limit, limits.map Sink.empty⟩ source).state.matrix.written =
        (String.ofList text).toUTF8 ∧
      MatrixText.read? text = some matrix ∧ matrix.rows = report.rows ∧
      matrix.columns = report.columns ∧
      ∀ column, column < report.columns ∨ (∃ line ∈ matrix.body, column ∈ line.columns) →
        2 ≤ matrix.body.countP (column ∈ ·.columns) := by
  have hfresh : ∀ fresh ∈ limits.map fun _ => Sink.empty none, fresh = .empty none := by
    intro fresh hmem
    obtain ⟨_, -, rfl⟩ := Option.mem_map.mp hmem
    rfl
  obtain ⟨output, text, mapText, matrix, map, hends, -, hholds, -, -, hread, -, hdescribes⟩ :=
    h.exists_write hsource hfew hraw hfresh
  obtain ⟨hfull, hsame⟩ := write_unlimited h.filtered_eq hok
  rw [hends.2, Except.ok.injEq] at hfull
  subst hfull
  rw [hends.1] at hsame
  refine ⟨?_, text, matrix, hsame.symm.trans hholds.2, hread, rfl, rfl, ?_⟩
  · have hpositive := h.positive
    simp only [Incidence.excess] at hpositive
    simp only [matrixReport, hdescribes.rows_eq, hdescribes.columns_eq]
    omega
  · rintro column (hcolumn | ⟨line, hline, hcolumn⟩)
    · exact hdescribes.two_le column hcolumn
    · exact hdescribes.two_le column (hdescribes.lt_columns hline hcolumn)

/-- What a write has written that ends with success on a sound reduction. -/
theorem Sound.written_of_ok (h : Sound lines settings reduction)
    (hclear : reduction.filtered = false → reduction.Unspoiled) (hraw : settings.raw = false)
    (hsource : source.Yields lines) (hfew : (Incidence.allIdeals lines).card ≤ Arena.sentinel)
    {limit : Option ℕ} {limits : Option (Option ℕ)} {report : Report}
    (hok : (Reduction.write ⟨reduction, .empty limit, limits.map Sink.empty⟩ source).outcome =
      .ok report) :
    1 ≤ report.excess ∧ ∃ text matrix,
      (Reduction.write ⟨reduction, .empty limit, limits.map Sink.empty⟩ source).state.matrix.written =
        (String.ofList text).toUTF8 ∧
      MatrixText.read? text = some matrix ∧ matrix.rows = report.rows ∧
      matrix.columns = report.columns ∧
      ∀ column, column < report.columns ∨ (∃ line ∈ matrix.body, column ∈ line.columns) →
        2 ≤ matrix.body.countP (column ∈ ·.columns) := by
  cases hfiltered : reduction.filtered with
  | true =>
    rcases h.kept hfiltered with hkept | hphase
    · exact hkept.written_of_ok (h.settings_eq ▸ hraw) hsource hfew hok
    · have hfails := write_of_renumbered ⟨reduction, .empty limit, limits.map Sink.empty⟩ hfiltered
        hphase source
      cases hfails.2.symm.trans hok
  | false =>
    have hunspoiled := hclear hfiltered
    rcases Run.ends_or_fails (reduction.filter source) with ⟨_, hends⟩ | ⟨cause, hfails⟩
    · obtain ⟨hkept, hsettings⟩ := h.kept_of_ends_filter hunspoiled hsource hfew hends
      obtain ⟨hstate, houtcome⟩ := write_of_ends_filter hfiltered hends hkept.filtered_eq
        (.empty limit) (limits.map Sink.empty)
      rw [hstate]
      exact hkept.written_of_ok (hsettings ▸ hraw) hsource hfew (houtcome.symm.trans hok)
    · have hbroken := write_of_fails_filter hfiltered hfails (.empty limit) (limits.map Sink.empty)
      cases hbroken.2.symm.trans hok

end

/-- Two relations with an ideal each, and so without an excess. -/
def evenLines : List String :=
  ["1,1:3:", "2,1:5:"]

def evenSettings : Settings :=
  { Settings.default with
    rows := 2
    expectedIdeals := some 64 }

end SieveFilter.Reduction
