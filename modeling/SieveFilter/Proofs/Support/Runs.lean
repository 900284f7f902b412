import SieveFilter.Run
import Mathlib.Data.Nat.Notation

/-!
# Runs that end and runs that fail

A run ends in a state with a value when its outcome is that value and it leaves that state, and it fails with
a cause when its outcome is that cause.  The rules below take a run apart into its steps, one rule for each
way of composing runs.
-/

namespace SieveFilter.Run

/-- The run succeeds with a value and leaves a state. -/
def Ends (run : Run σ α) (state : σ) (value : α) : Prop :=
  run.state = state ∧ run.outcome = .ok value

theorem Ends.unique {run : Run σ α} {state state' : σ} {value value' : α}
    (h : run.Ends state value) (h' : run.Ends state' value') :
    state = state' ∧ value = value' := by
  refine ⟨h.1.symm.trans h'.1, ?_⟩
  have heq := h.2.symm.trans h'.2
  injection heq

theorem exists_ends {run : Run σ α} {value : α} (h : run.outcome = .ok value) :
    ∃ state, run.Ends state value :=
  ⟨run.state, rfl, h⟩

@[simp] theorem ends_done {state state' : σ} {value value' : α} :
    (done state value).Ends state' value' ↔ state = state' ∧ value = value' := by
  simp [Ends, done]

@[simp] theorem not_ends_fail {state state' : σ} {cause : Failure} {value : α} :
    ¬ (fail state cause).Ends state' value := by
  simp [Ends, fail]

@[simp] theorem ends_after {notice : Notice} {run : Run σ α} {state : σ} {value : α} :
    (run.after notice).Ends state value ↔ run.Ends state value :=
  Iff.rfl

@[simp] theorem ends_afterAll {notices : List Notice} {run : Run σ α} {state : σ} {value : α} :
    (run.afterAll notices).Ends state value ↔ run.Ends state value :=
  Iff.rfl

theorem ends_within {run : Run σ α} {embed : σ → τ} {state : τ} {value : α} :
    (run.within embed).Ends state value ↔ ∃ inner, run.Ends inner value ∧ embed inner = state := by
  constructor
  · intro h
    exact ⟨run.state, ⟨rfl, h.2⟩, h.1⟩
  · rintro ⟨inner, ⟨rfl, hvalue⟩, rfl⟩
    exact ⟨rfl, hvalue⟩

/-- A run goes on after a first part exactly when both parts succeed. -/
theorem ends_next {run : Run σ α} {continuation : σ → α → Run σ β} {state : σ} {value : β} :
    (run.next continuation).Ends state value ↔
      ∃ middle between, run.Ends middle between ∧
        (continuation middle between).Ends state value := by
  obtain ⟨left, notices, outcome⟩ := run
  cases outcome with
  | error cause => simp [Ends, next]
  | ok between =>
    constructor
    · intro h
      exact ⟨left, between, ⟨rfl, rfl⟩, h⟩
    · rintro ⟨_, _, ⟨rfl, heq⟩, h⟩
      cases heq
      exact h

theorem Ends.next {run : Run σ α} {continuation : σ → α → Run σ β} {middle state : σ}
    {between : α} {value : β} (h : run.Ends middle between)
    (h' : (continuation middle between).Ends state value) :
    (run.next continuation).Ends state value :=
  ends_next.mpr ⟨middle, between, h, h'⟩

theorem Ends.within {run : Run σ α} {state : σ} {value : α} (h : run.Ends state value)
    (embed : σ → τ) : (run.within embed).Ends (embed state) value :=
  ends_within.mpr ⟨state, h, rfl⟩

/-- A walk succeeds when its first step does, and its rest if that step asks for more. -/
theorem ends_each_cons {step : σ → ι → Run σ Bool} {state final : σ} {item : ι} {rest : List ι} :
    (each step state (item :: rest)).Ends final () ↔
      ∃ middle more, (step state item).Ends middle more ∧
        (if more then each step middle rest else done middle ()).Ends final () := by
  rw [Run.each_cons, ends_next]

theorem Ends.each_cons {step : σ → ι → Run σ Bool} {state middle final : σ} {item : ι}
    {rest : List ι} (h : (step state item).Ends middle true)
    (hrest : (each step middle rest).Ends final ()) :
    (each step state (item :: rest)).Ends final () :=
  ends_each_cons.mpr ⟨middle, true, h, hrest⟩

/-! ## Failures -/

/-- The run fails with a cause and leaves a state. -/
def Fails (run : Run σ α) (state : σ) (cause : Failure) : Prop :=
  run.state = state ∧ run.outcome = .error cause

theorem exists_fails {run : Run σ α} {cause : Failure} (h : run.outcome = .error cause) :
    ∃ state, run.Fails state cause :=
  ⟨run.state, rfl, h⟩

theorem Fails.not_ends {run : Run σ α} {state state' : σ} {cause : Failure} {value : α}
    (h : run.Fails state cause) : ¬ run.Ends state' value := by
  intro hends
  have heq := h.2.symm.trans hends.2
  cases heq

/-- A run ends with a result or fails. -/
theorem ends_or_fails (run : Run σ α) :
    (∃ value, run.Ends run.state value) ∨ ∃ cause, run.Fails run.state cause := by
  cases houtcome : run.outcome with
  | ok value => exact .inl ⟨value, rfl, houtcome⟩
  | error cause => exact .inr ⟨cause, rfl, houtcome⟩

@[simp] theorem not_fails_done {state state' : σ} {value : α} {cause : Failure} :
    ¬ (done state value).Fails state' cause := by
  simp [Fails, done]

@[simp] theorem fails_fail {state state' : σ} {cause cause' : Failure} :
    (fail state cause : Run σ α).Fails state' cause' ↔ state = state' ∧ cause = cause' := by
  simp [Fails, fail]

@[simp] theorem fails_after {notice : Notice} {run : Run σ α} {state : σ} {cause : Failure} :
    (run.after notice).Fails state cause ↔ run.Fails state cause :=
  Iff.rfl

@[simp] theorem fails_afterAll {notices : List Notice} {run : Run σ α} {state : σ}
    {cause : Failure} : (run.afterAll notices).Fails state cause ↔ run.Fails state cause :=
  Iff.rfl

theorem fails_within {run : Run σ α} {embed : σ → τ} {state : τ} {cause : Failure} :
    (run.within embed).Fails state cause ↔
      ∃ inner, run.Fails inner cause ∧ embed inner = state := by
  constructor
  · intro h
    exact ⟨run.state, ⟨rfl, h.2⟩, h.1⟩
  · rintro ⟨inner, ⟨rfl, hcause⟩, rfl⟩
    exact ⟨rfl, hcause⟩

/-- A composed run fails where its first part does, or where the rest does after the first part. -/
theorem fails_next {run : Run σ α} {continuation : σ → α → Run σ β} {state : σ}
    {cause : Failure} :
    (run.next continuation).Fails state cause ↔
      run.Fails state cause ∨
        ∃ middle between, run.Ends middle between ∧
          (continuation middle between).Fails state cause := by
  obtain ⟨left, notices, outcome⟩ := run
  cases outcome with
  | error cause' => simp [Fails, Ends, next]
  | ok between =>
    constructor
    · intro h
      exact .inr ⟨left, between, ⟨rfl, rfl⟩, h⟩
    · rintro (⟨-, hcause⟩ | ⟨_, _, ⟨rfl, heq⟩, h⟩)
      · cases hcause
      · cases heq
        exact h

/-- A walk fails at the first step that fails. -/
theorem fails_each_cons {step : σ → ι → Run σ Bool} {state final : σ} {item : ι} {rest : List ι}
    {cause : Failure} :
    (each step state (item :: rest)).Fails final cause ↔
      (step state item).Fails final cause ∨
        ∃ middle, (step state item).Ends middle true ∧
          (each step middle rest).Fails final cause := by
  rw [Run.each_cons, fails_next]
  apply or_congr_right
  constructor
  · rintro ⟨middle, more, hends, hrest⟩
    cases more with
    | true => exact ⟨middle, hends, hrest⟩
    | false => exact absurd hrest not_fails_done
  · rintro ⟨middle, hends, hrest⟩
    exact ⟨middle, true, hends, hrest⟩

/-- A walk that fails fails at one of its items, and what its steps keep still holds there. -/
theorem exists_of_fails_each (Invariant : σ → Prop) {step : σ → ι → Run σ Bool}
    (hstep : ∀ state item, Invariant state → Invariant (step state item).state) {items : List ι}
    {state final : σ} {cause : Failure} (hstate : Invariant state)
    (h : (each step state items).Fails final cause) :
    ∃ middle, Invariant middle ∧ ∃ item ∈ items, (step middle item).Fails final cause := by
  induction items generalizing state with
  | nil => exact absurd h not_fails_done
  | cons item rest ih =>
    rcases fails_each_cons.mp h with hfirst | ⟨middle, hends, hrest⟩
    · exact ⟨state, hstate, item, List.mem_cons_self, hfirst⟩
    · have hmiddle := hstep state item hstate
      rw [hends.1] at hmiddle
      obtain ⟨later, hlater, other, hother, hfails⟩ := ih hmiddle hrest
      exact ⟨later, hlater, other, List.mem_cons_of_mem item hother, hfails⟩

/-! ## Runs with the same result -/

/-- Two runs leave the same state and have the same outcome, whatever their notices are. -/
def SameResult (run run' : Run σ α) : Prop :=
  run.state = run'.state ∧ run.outcome = run'.outcome

namespace SameResult

variable {run run' run'' : Run σ α}

theorem refl (run : Run σ α) : run.SameResult run :=
  ⟨rfl, rfl⟩

theorem symm (h : run.SameResult run') : run'.SameResult run :=
  ⟨h.1.symm, h.2.symm⟩

theorem trans (h : run.SameResult run') (h' : run'.SameResult run'') : run.SameResult run'' :=
  ⟨h.1.trans h'.1, h.2.trans h'.2⟩

theorem ends_iff (h : run.SameResult run') {state : σ} {value : α} :
    run.Ends state value ↔ run'.Ends state value := by
  rw [Ends, Ends, h.1, h.2]

theorem fails_iff (h : run.SameResult run') {state : σ} {cause : Failure} :
    run.Fails state cause ↔ run'.Fails state cause := by
  rw [Fails, Fails, h.1, h.2]

theorem within (h : run.SameResult run') (embed : σ → τ) :
    (run.within embed).SameResult (run'.within embed) :=
  ⟨congrArg embed h.1, h.2⟩

/-- Runs with the same result go on with the same result. -/
theorem next (h : run.SameResult run') {continuation continuation' : σ → α → Run σ β}
    (hrest : ∀ state value, run.Ends state value →
      (continuation state value).SameResult (continuation' state value)) :
    (run.next continuation).SameResult (run'.next continuation') := by
  obtain ⟨state, notices, outcome⟩ := run
  obtain ⟨state', notices', outcome'⟩ := run'
  obtain ⟨rfl, rfl⟩ : state = state' ∧ outcome = outcome' := h
  cases outcome with
  | error cause => exact ⟨rfl, rfl⟩
  | ok value => exact hrest state value ⟨rfl, rfl⟩

/-- Walks whose first steps have the same result, and which go on with the same result. -/
theorem each_cons {step : σ → ι → Run σ Bool} {state : σ} {item item' : ι} {rest rest' : List ι}
    (h : (step state item).SameResult (step state item'))
    (hrest : ∀ middle, (step state item).Ends middle true →
      (each step middle rest).SameResult (each step middle rest')) :
    (each step state (item :: rest)).SameResult (each step state (item' :: rest')) := by
  rw [Run.each_cons, Run.each_cons]
  apply h.next
  intro middle more hends
  cases more with
  | true => exact hrest middle hends
  | false => exact refl (done middle ())

end SameResult

/-- After a first part that ends in a known way, only that continuation matters. -/
theorem Ends.next_eq {run : Run σ α} {middle : σ} {between : α} (h : run.Ends middle between)
    (continuation : σ → α → Run σ β) :
    (run.next continuation).SameResult (continuation middle between) := by
  obtain ⟨state, notices, outcome⟩ := run
  obtain ⟨rfl, rfl⟩ : state = middle ∧ outcome = .ok between := h
  exact ⟨rfl, rfl⟩

/-- A walk whose first step asks for more goes on as the walk over the rest. -/
theorem Ends.each_cons_eq {step : σ → ι → Run σ Bool} {state middle : σ} {item : ι}
    (h : (step state item).Ends middle true) (rest : List ι) :
    (each step state (item :: rest)).SameResult (each step middle rest) := by
  rw [Run.each_cons]
  exact h.next_eq _

/-- A walk passes over items whose steps change nothing. -/
theorem each_filter {step : σ → ι → Run σ Bool} {keep : ι → Bool}
    (hskip : ∀ state item, keep item = false → (step state item).Ends state true) (state : σ)
    (items : List ι) :
    (each step state items).SameResult (each step state (items.filter keep)) := by
  induction items generalizing state with
  | nil => exact .refl _
  | cons item rest ih =>
    cases hkeep : keep item with
    | true =>
      rw [List.filter_cons_of_pos hkeep]
      exact (SameResult.refl (step state item)).each_cons fun middle _ => ih middle
    | false =>
      rw [List.filter_cons_of_neg (Bool.eq_false_iff.mp hkeep)]
      exact ((hskip state item hkeep).each_cons_eq rest).trans (ih state)

/-- Two walks have the same result when an invariant leads them on side by side: at each position they have
the same result from there on, or both take an item with the same result and keep the invariant. -/
theorem each_drop_sameResult (Invariant : ℕ → σ → Prop) {step : σ → ι → Run σ Bool} {items items' : List ι}
    (hstep : ∀ n state, Invariant n state →
      (each step state (items.drop n)).SameResult (each step state (items'.drop n)) ∨
      ∃ item item', items[n]? = some item ∧ items'[n]? = some item' ∧
        (step state item).SameResult (step state item') ∧
        ∀ middle, (step state item).Ends middle true → Invariant (n + 1) middle)
    {n : ℕ} {state : σ} (h : Invariant n state) :
    (each step state (items.drop n)).SameResult (each step state (items'.drop n)) := by
  induction hleft : items.length - n generalizing n state with
  | zero =>
    rcases hstep n state h with hsame | ⟨item, _, hitem, -⟩
    · exact hsame
    · have hin := (List.getElem?_eq_some_iff.mp hitem).1
      omega
  | succ left ih =>
    rcases hstep n state h with hsame | ⟨item, item', hitem, hitem', hsame, hkeeps⟩
    · exact hsame
    · obtain ⟨hin, rfl⟩ := List.getElem?_eq_some_iff.mp hitem
      obtain ⟨hin', rfl⟩ := List.getElem?_eq_some_iff.mp hitem'
      rw [List.drop_eq_getElem_cons hin, List.drop_eq_getElem_cons hin']
      exact hsame.each_cons fun middle hends => ih (hkeeps middle hends) (by omega)

/-! ## What a run keeps -/

/-- A composed run stops where its first part does, or where the rest does after the first part. -/
theorem next_leaves (Left : σ → Prop) {run : Run σ α} {continuation : σ → α → Run σ β}
    (h : Left run.state)
    (hrest : ∀ state value, run.Ends state value → Left (continuation state value).state) :
    Left (run.next continuation).state := by
  obtain ⟨state, notices, outcome⟩ := run
  cases outcome with
  | error cause => exact h
  | ok value => exact hrest state value ⟨rfl, rfl⟩

/-- What the first part of a composed run leaves and the rest keeps holds wherever the run stops. -/
theorem next_keeps (Invariant : σ → Prop) {run : Run σ α} {continuation : σ → α → Run σ β}
    (h : Invariant run.state)
    (hrest : ∀ state value, Invariant state → Invariant (continuation state value).state) :
    Invariant (run.next continuation).state :=
  next_leaves Invariant h fun state value hends => hrest state value (hends.1 ▸ h)

/-- A walk keeps what each of its steps keeps, wherever it stops. -/
theorem each_keeps (Invariant : σ → Prop) {step : σ → ι → Run σ Bool}
    (hstep : ∀ state item, Invariant state → Invariant (step state item).state) {state : σ}
    (h : Invariant state) (items : List ι) : Invariant (each step state items).state := by
  induction items generalizing state with
  | nil => exact h
  | cons item rest ih =>
    rw [Run.each_cons]
    apply next_keeps Invariant (hstep state item h)
    intro middle more hmiddle
    cases more with
    | true => exact ih hmiddle
    | false => exact hmiddle

/-! ## Quiet runs -/

/-- The run makes no notice of the level of warnings. -/
def Quiet (run : Run σ α) : Prop :=
  ∀ notice ∈ run.notices, notice.level ≠ .warn

theorem quiet_done (state : σ) (value : α) : (done state value).Quiet := by
  simp [Quiet, done]

theorem quiet_fail (state : σ) (cause : Failure) : (fail state cause : Run σ α).Quiet := by
  simp [Quiet, fail]

theorem Quiet.after {run : Run σ α} (h : run.Quiet) {notice : Notice}
    (hnotice : notice.level ≠ .warn) : (run.after notice).Quiet := by
  intro other hother
  rcases List.mem_cons.mp hother with rfl | hother
  · exact hnotice
  · exact h other hother

theorem Quiet.afterAll {run : Run σ α} (h : run.Quiet) {notices : List Notice}
    (hnotices : ∀ notice ∈ notices, notice.level ≠ .warn) : (run.afterAll notices).Quiet := by
  intro other hother
  rcases List.mem_append.mp hother with hother | hother
  · exact hnotices other hother
  · exact h other hother

theorem Quiet.within {run : Run σ α} (h : run.Quiet) (embed : σ → τ) : (run.within embed).Quiet :=
  h

theorem Quiet.next {run : Run σ α} {continuation : σ → α → Run σ β} (h : run.Quiet)
    (h' : ∀ state value, run.Ends state value → (continuation state value).Quiet) :
    (run.next continuation).Quiet := by
  obtain ⟨state, notices, outcome⟩ := run
  cases outcome with
  | error cause => exact h
  | ok value => exact (h' state value ⟨rfl, rfl⟩).afterAll h

/-- After a quiet first part that ends in a known way, only that continuation matters. -/
theorem Quiet.next_of_ends {run : Run σ α} {continuation : σ → α → Run σ β} {middle : σ}
    {between : α} (h : run.Quiet) (hends : run.Ends middle between)
    (h' : (continuation middle between).Quiet) : (run.next continuation).Quiet := by
  apply h.next
  intro state value hvalue
  obtain ⟨rfl, rfl⟩ := hends.unique hvalue
  exact h'

theorem quiet_each {step : σ → ι → Run σ Bool} (hstep : ∀ state item, (step state item).Quiet)
    (state : σ) (items : List ι) : (each step state items).Quiet := by
  induction items generalizing state with
  | nil => exact quiet_done state ()
  | cons item rest ih =>
    rw [Run.each_cons]
    apply (hstep state item).next
    intro middle more _
    cases more with
    | true => exact ih middle
    | false => exact quiet_done middle ()

/-! ## Walks over numbers -/

/-- A walk over the numbers below a bound keeps an invariant that each of its steps keeps, and is quiet where
its steps are. -/
theorem exists_each_range' {quiet : Prop} {step : σ → ℕ → Run σ Bool} {Invariant : ℕ → σ → Prop}
    {first count : ℕ}
    (hstep : ∀ n < first + count, ∀ state, Invariant n state →
      ∃ after, (step state n).Ends after true ∧ (quiet → (step state n).Quiet) ∧ Invariant (n + 1) after)
    {state : σ} (hstate : Invariant first state) :
    ∃ after, (each step state (List.range' first count)).Ends after () ∧
      (quiet → (each step state (List.range' first count)).Quiet) ∧
      Invariant (first + count) after := by
  induction count generalizing first state with
  | zero => exact ⟨state, ⟨rfl, rfl⟩, fun _ => quiet_done state (), hstate⟩
  | succ count ih =>
    obtain ⟨middle, hmiddle, hquiet, hinvariant⟩ := hstep first (by omega) state hstate
    obtain ⟨after, hafter, hquietRest, hdone⟩ :=
      ih (fun n hn => hstep n (by omega)) hinvariant
    rw [List.range'_succ]
    refine ⟨after, hmiddle.each_cons hafter, ?_, ?_⟩
    · intro hall
      rw [Run.each_cons]
      exact (hquiet hall).next_of_ends hmiddle (hquietRest hall)
    · rwa [Nat.add_right_comm] at hdone

theorem exists_each_range {quiet : Prop} {step : σ → ℕ → Run σ Bool} {Invariant : ℕ → σ → Prop} {count : ℕ}
    (hstep : ∀ n < count, ∀ state, Invariant n state →
      ∃ after, (step state n).Ends after true ∧ (quiet → (step state n).Quiet) ∧ Invariant (n + 1) after)
    {state : σ} (hstate : Invariant 0 state) :
    ∃ after, (each step state (List.range count)).Ends after () ∧
      (quiet → (each step state (List.range count)).Quiet) ∧ Invariant count after := by
  have hwalk : ∃ after, (each step state (List.range' 0 count)).Ends after () ∧
      (quiet → (each step state (List.range' 0 count)).Quiet) ∧ Invariant (0 + count) after :=
    exists_each_range' (fun n hn => hstep n (by omega)) hstate
  rwa [Nat.zero_add, ← List.range_eq_range'] at hwalk

end SieveFilter.Run
