import SieveFilter.Proofs.Support.Runs

/-!
# Runs side by side

Two runs of one operation on states that correspond.  Only one failure tells how the blocks of a state are
laid out, that of a list too long for a block; a run that ends with it overflows, and a run that stores no
lists does not.  Two runs go alongside each other when, unless one of them overflows, they have the same outcome
and leave states that correspond.
-/

namespace SieveFilter

/-- The failures to store a list: it is too long for a block, or no block can be laid out. -/
def Failure.OfStorage : Failure → Prop
  | .listTooLong .. | .breakdown => True
  | _ => False

namespace Run

/-- The run fails because a list is too long for a block. -/
def Overflows (run : Run σ α) : Prop :=
  ∃ needed capacity, run.outcome = .error (.listTooLong needed capacity)

/-- The run fails because a list cannot be stored. -/
def Starves (run : Run σ α) : Prop :=
  ∃ cause : Failure, cause.OfStorage ∧ run.outcome = .error cause

/-- Unless one of two runs overflows, they have the same outcome and leave states that correspond. -/
def Alongside (Corresponds : σ → σ → Prop) (run run' : Run σ α) : Prop :=
  ¬ run.Overflows → ¬ run'.Overflows →
    run.outcome = run'.outcome ∧ Corresponds run.state run'.state

variable {Corresponds : σ → σ → Prop} {run run' : Run σ α} {state state' : σ}

/-! ## Overflows -/

theorem Overflows.next (h : run.Overflows) (continuation : σ → α → Run σ β) :
    (run.next continuation).Overflows := by
  obtain ⟨needed, capacity, houtcome⟩ := h
  obtain ⟨left, notices, outcome⟩ := run
  obtain rfl : outcome = .error (.listTooLong needed capacity) := houtcome
  exact ⟨needed, capacity, rfl⟩

/-! ## Runs that store no lists -/

theorem not_starves_done {value : α} : ¬ (done state value).Starves := by
  rintro ⟨cause, -, houtcome⟩
  cases houtcome

theorem not_starves_fail {cause : Failure} (hcause : ¬ cause.OfStorage) :
    ¬ (fail state cause : Run σ α).Starves := by
  rintro ⟨_, hstorage, houtcome⟩
  cases houtcome
  exact hcause hstorage

theorem starves_after {notice : Notice} : (run.after notice).Starves ↔ run.Starves :=
  Iff.rfl

theorem starves_afterAll {notices : List Notice} : (run.afterAll notices).Starves ↔ run.Starves :=
  Iff.rfl

theorem starves_within {embed : σ → τ} : (run.within embed).Starves ↔ run.Starves :=
  Iff.rfl

/-- A composed run does not starve if neither its first part nor what follows on it does. -/
theorem not_starves_next {continuation : σ → α → Run σ β} (h : ¬ run.Starves)
    (hrest : ∀ state value, ¬ (continuation state value).Starves) :
    ¬ (run.next continuation).Starves := by
  obtain ⟨left, notices, outcome⟩ := run
  cases outcome with
  | error cause =>
    rintro ⟨other, hstorage, houtcome⟩
    exact h ⟨other, hstorage, congrArg Except.error (Except.error.inj houtcome)⟩
  | ok value => exact hrest left value

theorem not_starves_each {step : σ → ι → Run σ Bool}
    (hstep : ∀ state item, ¬ (step state item).Starves) (state : σ) (items : List ι) :
    ¬ (each step state items).Starves := by
  induction items generalizing state with
  | nil => exact not_starves_done
  | cons item rest ih =>
    rw [Run.each_cons]
    apply not_starves_next (hstep state item)
    intro middle more
    cases more with
    | true => exact ih middle
    | false => exact not_starves_done

/-! ## Pairs of runs -/

namespace Alongside

theorem of_eq (houtcome : run.outcome = run'.outcome)
    (hstate : Corresponds run.state run'.state) : Alongside Corresponds run run' :=
  fun _ _ => ⟨houtcome, hstate⟩

theorem refl (run : Run σ α) : Alongside Eq run run :=
  of_eq rfl rfl

theorem done {value : α} (h : Corresponds state state') :
    Alongside Corresponds (done state value) (done state' value) :=
  of_eq rfl h

theorem fail {cause : Failure} (h : Corresponds state state') :
    Alongside Corresponds (fail state cause : Run σ α) (fail state' cause) :=
  of_eq rfl h

theorem after (h : Alongside Corresponds run run') (notice notice' : Notice) :
    Alongside Corresponds (run.after notice) (run'.after notice') :=
  h

theorem afterAll (h : Alongside Corresponds run run') (notices notices' : List Notice) :
    Alongside Corresponds (run.afterAll notices) (run'.afterAll notices') :=
  h

theorem ite {other other' : Run σ α} {p : Prop} [Decidable p]
    (h : p → Alongside Corresponds run run') (hnot : ¬ p → Alongside Corresponds other other') :
    Alongside Corresponds (if p then run else other) (if p then run' else other') := by
  by_cases hp : p
  · rw [if_pos hp, if_pos hp]
    exact h hp
  · rw [if_neg hp, if_neg hp]
    exact hnot hp

theorem within {Corresponds' : τ → τ → Prop} {embed embed' : σ → τ}
    (h : Alongside Corresponds run run')
    (hembed : ∀ state state', Corresponds state state' → Corresponds' (embed state) (embed' state')) :
    Alongside Corresponds' (run.within embed) (run'.within embed') := by
  intro hfits hfits'
  obtain ⟨houtcome, hstate⟩ := h hfits hfits'
  exact ⟨houtcome, hembed _ _ hstate⟩

/-- Runs that go alongside each other may be followed by such runs. -/
theorem next (h : Alongside Corresponds run run') {continuation continuation' : σ → α → Run σ β}
    (hrest : ∀ state state' value, run.Ends state value → run'.Ends state' value →
      Corresponds state state' →
        Alongside Corresponds (continuation state value) (continuation' state' value)) :
    Alongside Corresponds (run.next continuation) (run'.next continuation') := by
  intro hfits hfits'
  obtain ⟨houtcome, hstate⟩ :=
    h (mt (fun hover => hover.next continuation) hfits)
      (mt (fun hover => hover.next continuation') hfits')
  obtain ⟨left, notices, outcome⟩ := run
  obtain ⟨left', notices', outcome'⟩ := run'
  obtain rfl : outcome = outcome' := houtcome
  cases outcome with
  | error cause => exact ⟨rfl, hstate⟩
  | ok value =>
    exact hrest left left' value ⟨rfl, rfl⟩ ⟨rfl, rfl⟩ hstate hfits hfits'

/-- A walk goes alongside another one over the same items if their first steps do and, where these end and ask
for more, the walks over the rest. -/
theorem each_cons {step step' : σ → ι → Run σ Bool} {item : ι} {rest : List ι}
    (h : Alongside Corresponds (step state item) (step' state' item))
    (hrest : ∀ middle middle', (step state item).Ends middle true →
      (step' state' item).Ends middle' true → Corresponds middle middle' →
        Alongside Corresponds (each step middle rest) (each step' middle' rest)) :
    Alongside Corresponds (each step state (item :: rest)) (each step' state' (item :: rest)) := by
  rw [Run.each_cons, Run.each_cons]
  apply h.next
  intro middle middle' more hends hends' hmiddle
  cases more with
  | true => exact hrest middle middle' hends hends' hmiddle
  | false => exact done hmiddle

end Alongside

end Run

end SieveFilter
