import SieveFilter.Proofs.Support.Runs
import SieveFilter.Sink

/-!
# Sinks with a limit

What is written to a sink with a limit is a beginning of what would be written to one without.  An operation
is compared with itself on a state whose sink has a limit: as long as everything fits it does the same, and
where the text passes the limit it fails, with the limit used up.
-/

namespace SieveFilter

namespace Sink

/-- The sink as it would be with a limit. -/
def cut (limit : ℕ) (sink : Sink) : Sink :=
  ⟨sink.written.extract 0 limit, some limit⟩

/-- The sink has no limit, and what it holds is within the given one. -/
def Fits (limit : ℕ) (sink : Sink) : Prop :=
  sink.limit = none ∧ sink.written.size ≤ limit

/-- The sink has no limit, and holds more than the given one allows. -/
def Exceeds (limit : ℕ) (sink : Sink) : Prop :=
  sink.limit = none ∧ limit < sink.written.size

/-- A sink to which more was written. -/
def Extends (earlier later : Sink) : Prop :=
  later.limit = earlier.limit ∧ ∃ bytes, later.written = earlier.written ++ bytes

variable {limit : ℕ} {sink earlier later : Sink}

theorem fits_empty (limit : ℕ) : (empty none).Fits limit :=
  ⟨rfl, Nat.zero_le limit⟩

@[simp] theorem cut_empty (limit : ℕ) : (empty none).cut limit = empty (some limit) := by
  simp [cut, empty]

theorem fits_or_exceeds (hfree : sink.limit = none) (limit : ℕ) :
    sink.Fits limit ∨ sink.Exceeds limit := by
  rcases Nat.lt_or_ge limit sink.written.size with hmore | hless
  · exact .inr ⟨hfree, hmore⟩
  · exact .inl ⟨hfree, hless⟩

theorem Fits.not_exceeds (h : sink.Fits limit) : ¬ sink.Exceeds limit :=
  fun hexceeds => Nat.not_lt.mpr h.2 hexceeds.2

/-- What is within the limit is not cut. -/
theorem extract_of_le {written : ByteArray} (h : written.size ≤ limit) :
    written.extract 0 limit = written :=
  ByteArray.ext (ByteArray.data_extract.trans (Array.extract_eq_self_of_le h))

theorem Fits.cut_eq (h : sink.Fits limit) : sink.cut limit = ⟨sink.written, some limit⟩ := by
  rw [cut, extract_of_le h.2]

theorem Extends.refl (sink : Sink) : sink.Extends sink :=
  ⟨rfl, .empty, ByteArray.append_empty.symm⟩

theorem Extends.trans {middle : Sink} (h : earlier.Extends middle) (h' : middle.Extends later) :
    earlier.Extends later := by
  obtain ⟨hlimit, bytes, hbytes⟩ := h
  obtain ⟨hlimit', bytes', hbytes'⟩ := h'
  exact ⟨hlimit'.trans hlimit, bytes ++ bytes', by rw [hbytes', hbytes, ByteArray.append_assoc]⟩

/-- What is within the limit at last was so before. -/
theorem Extends.fits (h : earlier.Extends later) (hlater : later.Fits limit) :
    earlier.Fits limit := by
  obtain ⟨hlimit, bytes, hbytes⟩ := h
  have hsize := hlater.2
  rw [hbytes, ByteArray.size_append] at hsize
  exact ⟨hlimit ▸ hlater.1, by omega⟩

/-- Once the limit is passed, what is written later does not show. -/
theorem Extends.of_exceeds (h : earlier.Extends later) (hearlier : earlier.Exceeds limit) :
    later.Exceeds limit ∧ later.cut limit = earlier.cut limit := by
  obtain ⟨hlimit, bytes, hbytes⟩ := h
  have hsize := hearlier.2
  refine ⟨⟨hlimit.trans hearlier.1, ?_⟩, ?_⟩
  · rw [hbytes, ByteArray.size_append]
    omega
  · have hnone : bytes.extract (0 - earlier.written.size) (limit - earlier.written.size) = .empty := by
      rw [ByteArray.extract_eq_empty_iff]
      omega
    rw [cut, cut, hbytes, ByteArray.extract_append, hnone, ByteArray.append_empty]

/-! ## One text -/

theorem extends_put (sink : Sink) (text : String) : sink.Extends (sink.put text).1 := by
  obtain ⟨written, limit⟩ := sink
  cases limit with
  | none => exact ⟨rfl, _, rfl⟩
  | some limit =>
    simp only [put]
    split
    · exact ⟨rfl, _, rfl⟩
    · exact ⟨rfl, _, rfl⟩

/-- A sink without a limit takes every text. -/
theorem put_of_free (hfree : sink.limit = none) (text : String) :
    sink.put text = (⟨sink.written ++ text.toUTF8, none⟩, true) := by
  obtain ⟨written, limit⟩ := sink
  obtain rfl : limit = none := hfree
  rfl

theorem put_of_room {written : ByteArray} {text : String}
    (hroom : written.size + text.toUTF8.size ≤ limit) :
    put ⟨written, some limit⟩ text = (⟨written ++ text.toUTF8, some limit⟩, true) := by
  simp only [put]
  rw [if_pos (by omega)]

theorem put_of_no_room {written : ByteArray} {text : String} (hwritten : written.size ≤ limit)
    (hroom : limit < written.size + text.toUTF8.size) :
    put ⟨written, some limit⟩ text =
      (⟨(written ++ text.toUTF8).extract 0 limit, some limit⟩, false) := by
  simp only [put]
  rw [if_neg (by omega), ByteArray.extract_append, Nat.zero_sub, extract_of_le hwritten]

/-- A text that fits is taken with the limit as it is without. -/
theorem put_cut_of_fits {text : String} (h : (sink.put text).1.Fits limit) :
    sink.put text = ((sink.put text).1, true) ∧
      (sink.cut limit).put text = ((sink.put text).1.cut limit, true) := by
  have hsink := (extends_put sink text).fits h
  have hput := put_of_free hsink.1 text
  refine ⟨by rw [hput], ?_⟩
  rw [h.cut_eq, hsink.cut_eq]
  rw [hput] at h ⊢
  exact put_of_room (ByteArray.size_append ▸ h.2)

/-- A text that passes the limit is taken up to it. -/
theorem put_cut_of_exceeds {text : String} (hsink : sink.Fits limit)
    (h : (sink.put text).1.Exceeds limit) :
    (sink.cut limit).put text = ((sink.put text).1.cut limit, false) := by
  have hput := put_of_free hsink.1 text
  rw [hsink.cut_eq]
  rw [hput] at h ⊢
  exact put_of_no_room hsink.2 (ByteArray.size_append ▸ h.2)

end Sink

/-! ## States with a sink -/

/-- Where states keep the sink that they write to. -/
structure Outlet (σ : Type) where
  sink : σ → Sink
  modify : (Sink → Sink) → σ → σ

/-- The state as it would be if its sink had a limit. -/
def Outlet.cut (outlet : Outlet σ) (limit : ℕ) : σ → σ :=
  outlet.modify (Sink.cut limit)

/-! ## Runs with a limit -/

namespace Run

variable {outlet : Outlet σ} {limit : ℕ} {start state : σ} {limited full : Run σ α}

/-- A run from a state whose sink has a limit goes along with the run without it.  If what the latter writes
is within the limit, they do the same, and otherwise the former fails with as much written as the limit
allows. -/
structure Limited (outlet : Outlet σ) (limit : ℕ) (start : σ) (limited full : Run σ α) : Prop where
  grows : (outlet.sink start).Extends (outlet.sink full.state)
  of_fits : (outlet.sink full.state).Fits limit →
    limited.state = outlet.cut limit full.state ∧ limited.outcome = full.outcome
  of_exceeds : (outlet.sink start).Fits limit → (outlet.sink full.state).Exceeds limit →
    outlet.sink limited.state = (outlet.sink full.state).cut limit ∧
      limited.outcome = .error (.fault .full)

namespace Limited

/-- A run that writes nothing does not notice the limit. -/
theorem of_eq (hsink : outlet.sink full.state = outlet.sink start)
    (hstate : limited.state = outlet.cut limit full.state)
    (houtcome : limited.outcome = full.outcome) : Limited outlet limit start limited full where
  grows := hsink ▸ .refl _
  of_fits := fun _ => ⟨hstate, houtcome⟩
  of_exceeds := fun hfits hexceeds => absurd (hsink ▸ hexceeds) hfits.not_exceeds

theorem of_start {start' : σ} (h : Limited outlet limit start limited full)
    (hstart : outlet.sink start' = outlet.sink start) :
    Limited outlet limit start' limited full :=
  ⟨hstart ▸ h.grows, h.of_fits, hstart ▸ h.of_exceeds⟩

theorem after (h : Limited outlet limit start limited full) (notice notice' : Notice) :
    Limited outlet limit start (limited.after notice) (full.after notice') :=
  ⟨h.grows, h.of_fits, h.of_exceeds⟩

theorem afterAll (h : Limited outlet limit start limited full) (notices notices' : List Notice) :
    Limited outlet limit start (limited.afterAll notices) (full.afterAll notices') :=
  ⟨h.grows, h.of_fits, h.of_exceeds⟩

/-- The states of both runs may be seen as parts of larger ones, if these keep the same sink. -/
theorem within {outlet' : Outlet τ} {embed embed' : σ → τ} {start' : τ}
    (h : Limited outlet limit start limited full)
    (hstart : outlet'.sink start' = outlet.sink start)
    (hsink : ∀ state, outlet'.sink (embed state) = outlet.sink state)
    (hsink' : ∀ state, outlet'.sink (embed' state) = outlet.sink state)
    (hcut : ∀ state, embed' (outlet.cut limit state) = outlet'.cut limit (embed state)) :
    Limited outlet' limit start' (limited.within embed') (full.within embed) := by
  have hfinal : outlet'.sink (full.within embed).state = outlet.sink full.state := hsink _
  constructor
  · rw [hfinal, hstart]
    exact h.grows
  · rw [hfinal]
    intro hfits
    obtain ⟨hstate, houtcome⟩ := h.of_fits hfits
    exact ⟨(congrArg embed' hstate).trans (hcut _), houtcome⟩
  · rw [hfinal, hstart]
    intro hfits hexceeds
    obtain ⟨hstate, houtcome⟩ := h.of_exceeds hfits hexceeds
    exact ⟨(hsink' _).trans hstate, houtcome⟩

/-- A limited run may be followed by what is limited from every state that the run without the limit may end
in. -/
theorem next {continuation continuation' : σ → α → Run σ β}
    (h : Limited outlet limit start limited full)
    (hrest : ∀ state value, Limited outlet limit state
      (continuation' (outlet.cut limit state) value) (continuation state value)) :
    Limited outlet limit start (limited.next continuation') (full.next continuation) := by
  obtain ⟨left, notices, outcome⟩ := full
  obtain ⟨left', notices', outcome'⟩ := limited
  have hfits : (outlet.sink left).Fits limit → left' = outlet.cut limit left ∧ outcome' = outcome :=
    h.of_fits
  have hexceeds : (outlet.sink start).Fits limit → (outlet.sink left).Exceeds limit →
      outlet.sink left' = (outlet.sink left).cut limit ∧ outcome' = .error (.fault .full) :=
    h.of_exceeds
  cases outcome with
  | error cause =>
    refine ⟨h.grows, ?_, ?_⟩
    · intro hwithin
      obtain ⟨rfl, rfl⟩ := hfits hwithin
      exact ⟨rfl, rfl⟩
    · intro hstart hpassed
      obtain ⟨hsink, rfl⟩ := hexceeds hstart hpassed
      exact ⟨hsink, rfl⟩
  | ok value =>
    have hmore := hrest left value
    refine ⟨h.grows.trans hmore.grows, ?_, ?_⟩
    · intro hwithin
      obtain ⟨rfl, rfl⟩ := hfits (hmore.grows.fits hwithin)
      exact hmore.of_fits hwithin
    · intro hstart hpassed
      -- The limit is passed either by what follows or already before it, which then is not reached.
      have hfree : (outlet.sink left).limit = none := h.grows.1.trans hstart.1
      rcases Sink.fits_or_exceeds hfree limit with hwithin | hbefore
      · obtain ⟨rfl, rfl⟩ := hfits hwithin
        exact hmore.of_exceeds hwithin hpassed
      · obtain ⟨hsink, rfl⟩ := hexceeds hstart hbefore
        exact ⟨hsink.trans (hmore.grows.of_exceeds hbefore).2.symm, rfl⟩

theorem each {step : σ → ι → Run σ Bool}
    (hstep : ∀ state item, Limited outlet limit state (step (outlet.cut limit state) item)
      (step state item)) (state : σ) (items : List ι) :
    Limited outlet limit state (Run.each step (outlet.cut limit state) items)
      (Run.each step state items) := by
  induction items generalizing state with
  | nil => exact of_eq rfl rfl rfl
  | cons item rest ih =>
    rw [Run.each_cons, Run.each_cons]
    apply (hstep state item).next
    intro middle more
    cases more with
    | true => exact ih middle
    | false => exact of_eq rfl rfl rfl

/-- A text is written to the sink of a state.  The run fails unless all of the text is taken. -/
theorem put (embed : Sink → σ) (write : Sink → Run σ Unit) (text : String)
    (hsink : ∀ sink, outlet.sink (embed sink) = sink)
    (hcut : ∀ sink, outlet.cut limit (embed sink) = embed (sink.cut limit))
    (htaken : ∀ sink after, sink.put text = (after, true) → write sink = .done (embed after) ())
    (hfull : ∀ sink after, sink.put text = (after, false) →
      write sink = .fail (embed after) (.fault .full)) (sink : Sink) :
    Limited outlet limit (embed sink) (write (sink.cut limit)) (write sink) := by
  have hstate (sink : Sink) : (write sink).state = embed (sink.put text).1 := by
    cases hput : sink.put text with
    | mk after taken =>
      cases taken with
      | true => rw [htaken sink after hput]; rfl
      | false => rw [hfull sink after hput]; rfl
  constructor
  · rw [hstate, hsink, hsink]
    exact Sink.extends_put sink text
  · rw [hstate, hsink]
    intro hfits
    obtain ⟨hput, hputCut⟩ := Sink.put_cut_of_fits hfits
    rw [htaken _ _ hput, htaken _ _ hputCut]
    exact ⟨(hcut _).symm, rfl⟩
  · rw [hstate, hsink, hsink]
    intro hfits hexceeds
    have hput := Sink.put_cut_of_exceeds hfits hexceeds
    rw [hfull _ _ hput]
    exact ⟨hsink _, rfl⟩

/-! ### Comparing the ends -/

/-- What is written is within the limit: the run with the limit ends in the same way. -/
theorem ends_of_fits (h : Limited outlet limit start limited full) {value : α}
    (hends : full.Ends state value) (hfits : (outlet.sink state).Fits limit) :
    limited.Ends (outlet.cut limit state) value := by
  obtain ⟨rfl, hvalue⟩ := hends
  obtain ⟨hstate, houtcome⟩ := h.of_fits hfits
  exact ⟨hstate, houtcome.trans hvalue⟩

/-- What is written passes the limit: the run with the limit fails with the limit used up. -/
theorem fails_of_exceeds (h : Limited outlet limit start limited full)
    (hstart : (outlet.sink start).Fits limit) {value : α} (hends : full.Ends state value)
    (hexceeds : (outlet.sink state).Exceeds limit) :
    ∃ stopped, limited.Fails stopped (.fault .full) ∧
      outlet.sink stopped = (outlet.sink state).cut limit := by
  obtain ⟨rfl, -⟩ := hends
  obtain ⟨hsink, houtcome⟩ := h.of_exceeds hstart hexceeds
  exact ⟨limited.state, ⟨rfl, houtcome⟩, hsink⟩

/-- A run with a limit that ends has written all of it. -/
theorem exists_of_ends (h : Limited outlet limit start limited full)
    (hstart : (outlet.sink start).Fits limit) {value : α} (hends : limited.Ends state value) :
    ∃ state', full.Ends state' value ∧ (outlet.sink state').Fits limit ∧
      state = outlet.cut limit state' := by
  rcases Sink.fits_or_exceeds (h.grows.1.trans hstart.1) limit with hfits | hexceeds
  · obtain ⟨hstate, houtcome⟩ := h.of_fits hfits
    exact ⟨full.state, ⟨rfl, houtcome.symm.trans hends.2⟩, hfits, hends.1.symm.trans hstate⟩
  · have hbroken := hends.2.symm.trans (h.of_exceeds hstart hexceeds).2
    cases hbroken

end Limited

end Run

end SieveFilter
