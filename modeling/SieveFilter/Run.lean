import SieveFilter.Notice

/-!
# Runs

The outcome of an operation that may fail half way: the state it leaves behind in either case, the notices
it made in order, and its result or the reason of its failure.
-/

namespace SieveFilter

/-- The state an operation leaves, its notices, and its result or failure. -/
structure Run (σ α : Type) where
  state : σ
  notices : List Notice
  outcome : Except Failure α

namespace Run

def done (state : σ) (value : α) : Run σ α :=
  ⟨state, [], .ok value⟩

def fail (state : σ) (cause : Failure) : Run σ α :=
  ⟨state, [], .error cause⟩

/-- The run with a notice made before it. -/
def after (notice : Notice) (run : Run σ α) : Run σ α :=
  { run with notices := notice :: run.notices }

/-- The run with notices made before it. -/
def afterAll (notices : List Notice) (run : Run σ α) : Run σ α :=
  { run with notices := notices ++ run.notices }

/-- Continues a successful run; after a failure nothing more is done. -/
def next (run : Run σ α) (continuation : σ → α → Run σ β) : Run σ β :=
  match run with
  | ⟨state, notices, .error cause⟩ => ⟨state, notices, .error cause⟩
  | ⟨state, notices, .ok value⟩ =>
    (continuation state value).afterAll notices

/-- The run with its state seen as a part of a larger one. -/
def within (run : Run σ α) (embed : σ → τ) : Run τ α :=
  ⟨embed run.state, run.notices, run.outcome⟩

/-- Takes the items of a list one after the other, with `past` the notices made so far, latest first. -/
def eachFrom
    (step : σ → ι → Run σ Bool) (past : List Notice) (state : σ) : List ι → Run σ Unit
  | [] => ⟨state, past.reverse, .ok ()⟩
  | item :: rest =>
    match step state item with
    | ⟨state, notices, .error cause⟩ => ⟨state, past.reverse ++ notices, .error cause⟩
    | ⟨state, notices, .ok false⟩ => ⟨state, past.reverse ++ notices, .ok ()⟩
    | ⟨state, notices, .ok true⟩ => eachFrom step (notices.reverse ++ past) state rest

/-- Takes the items of a list one after the other, until a step fails or says that it is enough. -/
def each (step : σ → ι → Run σ Bool) (state : σ) (items : List ι) : Run σ Unit :=
  eachFrom step [] state items

@[simp] theorem next_done (state : σ) (value : α) (continuation : σ → α → Run σ β) :
    (done state value).next continuation = continuation state value := rfl

@[simp] theorem next_fail (state : σ) (cause : Failure) (continuation : σ → α → Run σ β) :
    (fail state cause : Run σ α).next continuation = fail state cause := rfl

/-- Notices made before a walk come first in its notices. -/
theorem eachFrom_eq
    (step : σ → ι → Run σ Bool) (past : List Notice) (state : σ) (items : List ι) :
    eachFrom step past state items =
      { each step state items with notices := past.reverse ++ (each step state items).notices } := by
  induction items generalizing past state with
  | nil => simp [each, eachFrom]
  | cons item rest ih =>
    simp only [each, eachFrom]
    split
    · simp
    · simp
    · rw [ih, ih (_ ++ [])]
      simp

@[simp] theorem each_nil (step : σ → ι → Run σ Bool) (state : σ) :
    each step state [] = done state () := rfl

/-- A walk over a list is its first step, and then, unless that is enough, the walk over the rest. -/
theorem each_cons (step : σ → ι → Run σ Bool) (state : σ) (item : ι) (rest : List ι) :
    each step state (item :: rest) =
      (step state item).next fun state more =>
        if more then each step state rest else done state () := by
  rw [each, eachFrom]
  obtain ⟨state, notices, outcome⟩ := step state item
  match outcome with
  | .error cause => simp [next]
  | .ok false => simp [next, done, afterAll]
  | .ok true =>
    simp only
    rw [eachFrom_eq]
    simp [next, afterAll]

end Run

end SieveFilter
