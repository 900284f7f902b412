import SieveFilter.Proofs.Roster.Keys

/-!
# Histories of rosters

Whatever is done to a roster, its ideals are those that were inserted since the last reset, numbered in the
order of their first insertion, and the value of a slot is what the changes of that slot come to.  One operation
keeps this so, and therefore every history does, if it changes the values of slots only that it was given since
the last reset.
-/

namespace SieveFilter.Roster

/-- What can be done to a roster. -/
inductive Operation where
  | insert (ideal : Ideal)
  | increment (slot : ℕ)
  | decrement (slot : ℕ)
  | write (slot : ℕ) (value : ℤ)
  | beginRenumbering
  | reset
  deriving DecidableEq

namespace Operation

/-- The slot whose value an operation changes, and what the value is changed to. -/
def change? : Operation → Option (ℕ × (ℤ → ℤ))
  | increment slot => some (slot, (· + 1))
  | decrement slot => some (slot, (· - 1))
  | write slot value => some (slot, fun _ => value)
  | insert _ | beginRenumbering | reset => none

def inserted? : Operation → Option Ideal
  | insert ideal => some ideal
  | _ => none

/-- What an operation makes of the value of a slot. -/
def net (slot : ℕ) (value : ℤ) (operation : Operation) : ℤ :=
  match operation.change? with
  | some (other, change) => if slot = other then change value else value
  | none => value

/-- The slots given since the last reset, once an operation is done. -/
def given (roster : Roster) (slots : List ℕ) : Operation → List ℕ
  | insert ideal => (roster.insert ideal).1 :: slots
  | reset => []
  | _ => slots

/-- Values are changed in slots only that were given since the last reset. -/
def Allowed (slots : List ℕ) : Operation → Prop
  | increment slot | decrement slot | write slot _ => slot ∈ slots
  | insert _ | beginRenumbering | reset => True

instance (slots : List ℕ) (operation : Operation) : Decidable (operation.Allowed slots) :=
  match operation with
  | increment _ | decrement _ | write .. => inferInstanceAs (Decidable (_ ∈ _))
  | insert _ | beginRenumbering | reset => .isTrue trivial

end Operation

/-- The roster that an operation leaves; a renumbering that is refused changes nothing. -/
def apply (roster : Roster) : Operation → Roster
  | .insert ideal => (roster.insert ideal).2
  | .increment slot => roster.increment slot
  | .decrement slot => roster.decrement slot
  | .write slot value => roster.write slot value
  | .beginRenumbering => roster.beginRenumbering.toOption.getD roster
  | .reset => .empty

def execute (roster : Roster) (operations : List Operation) : Roster :=
  operations.foldl apply roster

/-- Every operation of a sequence is allowed when its turn comes. -/
def Permits : Roster → List ℕ → List Operation → Prop
  | _, _, [] => True
  | roster, slots, operation :: rest =>
    operation.Allowed slots ∧ Permits (roster.apply operation) (operation.given roster slots) rest

instance decidablePermits :
    (roster : Roster) → (slots : List ℕ) → (operations : List Operation) →
      Decidable (Permits roster slots operations)
  | _, _, [] => .isTrue trivial
  | roster, slots, operation :: rest =>
    have := decidablePermits (roster.apply operation) (operation.given roster slots) rest
    inferInstanceAs (Decidable (_ ∧ _))

/-! ## What a history comes to -/

/-- The operations after the last reset. -/
def sinceReset (history : List Operation) : List Operation :=
  (history.reverse.takeWhile (· ≠ .reset)).reverse

/-- The ideals inserted since the last reset, as often as they were. -/
def inserted (history : List Operation) : List Ideal :=
  (sinceReset history).filterMap Operation.inserted?

/-- What the changes of a slot since the last reset come to. -/
def netValue (history : List Operation) (slot : ℕ) : ℤ :=
  (sinceReset history).foldl (Operation.net slot) 0

/-- The net value of an ideal, whose slot is its place in the order of first insertions. -/
def netOf (history : List Operation) (ideal : Ideal) : ℤ :=
  netValue history ((inserted history).eraseDups.idxOf ideal)

variable {history : List Operation} {operation : Operation} {slot : ℕ}

theorem sinceReset_reset (history : List Operation) : sinceReset (history ++ [.reset]) = [] := by
  simp [sinceReset]

theorem sinceReset_concat (history : List Operation) (hkeeps : operation ≠ .reset) :
    sinceReset (history ++ [operation]) = sinceReset history ++ [operation] := by
  simp [sinceReset, hkeeps]

theorem inserted_insert (history : List Operation) (ideal : Ideal) :
    inserted (history ++ [.insert ideal]) = inserted history ++ [ideal] := by
  simp [inserted, sinceReset_concat, Operation.inserted?]

theorem inserted_concat (history : List Operation) (hkeeps : operation ≠ .reset)
    (hnone : operation.inserted? = none) : inserted (history ++ [operation]) = inserted history := by
  simp [inserted, sinceReset_concat history hkeeps, hnone]

theorem netValue_concat (history : List Operation) (hkeeps : operation ≠ .reset) :
    netValue (history ++ [operation]) slot = operation.net slot (netValue history slot) := by
  simp [netValue, sinceReset_concat history hkeeps]

/-- Anything but a write adds an increment or takes a decrement away. -/
theorem Operation.net_eq_add (hwrite : ∀ value, operation ≠ .write slot value) (value : ℤ) :
    operation.net slot value =
      value + [operation].count (.increment slot) - [operation].count (.decrement slot) := by
  cases operation with
  | increment other | decrement other =>
    by_cases heq : slot = other
    · simp [net, change?, heq]
    · simp [net, change?, heq, Ne.symm heq]
  | write other new =>
    have hne : slot ≠ other := fun heq => hwrite new (heq ▸ rfl)
    simp [net, change?, hne]
  | insert _ | beginRenumbering | reset => simp [net, change?]

/-- Without writes to a slot, its net value is the number of its increments less that of its decrements. -/
theorem netValue_eq_count (hwrites : ∀ value, .write slot value ∉ sinceReset history) :
    netValue history slot =
      (sinceReset history).count (.increment slot) - (sinceReset history).count (.decrement slot) := by
  rw [netValue]
  generalize sinceReset history = operations at hwrites ⊢
  induction operations using List.reverseRecOn with
  | nil => rfl
  | append_singleton front last ih =>
    have hfront := ih fun value hmem => hwrites value (List.mem_append_left _ hmem)
    have hlast : ∀ value, last ≠ .write slot value :=
      fun value heq => hwrites value (heq ▸ List.mem_concat_self)
    rw [List.foldl_concat, hfront, Operation.net_eq_add hlast, List.count_append, List.count_append]
    omega

/-! ## One operation -/

/-- What holds of a roster after a permitted history, in which it has given out `slots` since the last reset. -/
structure Sound (history : List Operation) (slots : List ℕ) (roster : Roster) : Prop where
  wellFormed : roster.WellFormed
  ideals_eq : roster.ideals.toList = (inserted history).eraseDups
  value_eq : ∀ slot, roster.value slot = netValue history slot
  slots_lt : ∀ slot ∈ slots, slot < roster.size

theorem sound_empty : Sound [] [] empty where
  wellFormed := wellFormed_empty
  ideals_eq := rfl
  value_eq := fun slot => value_eq_zero_of_size_le (Nat.zero_le slot)
  slots_lt := by simp

theorem WellFormed.adjust {roster : Roster} (h : roster.WellFormed) (slot : ℕ) (change : ℤ → ℤ) :
    (roster.adjust slot change).WellFormed where
  values_size := (roster.adjust_values_size slot change).trans h.values_size
  slot_iff := h.slot_iff

theorem insert_of_known {roster : Roster} {ideal : Ideal} (hknown : roster.slot? ideal = some slot) :
    roster.insert ideal = (slot, roster) := by
  simp only [insert, hknown]

theorem insert_of_new {roster : Roster} {ideal : Ideal} (hnew : roster.slot? ideal = none) :
    roster.insert ideal =
      (roster.size,
        { roster with
          ideals := roster.ideals.push ideal
          slots := roster.slots.insert ideal roster.size
          values := roster.values.push 0 }) := by
  simp only [insert, hnew, size]

/-- An insertion leaves the slots that there are to their ideals. -/
theorem ideal?_insert {roster : Roster} {known : Ideal} (hslot : roster.ideal? slot = some known)
    (ideal : Ideal) : (roster.insert ideal).2.ideal? slot = some known := by
  cases hfound : roster.slot? ideal with
  | some other =>
    rw [insert_of_known hfound]
    exact hslot
  | none =>
    have hin : slot < roster.ideals.size := lt_size_of_ideal? hslot
    rw [insert_of_new hfound, ideal?, Array.getElem?_push, if_neg (Nat.ne_of_lt hin)]
    exact hslot

/-- An operation that changes a value changes that of its slot alone. -/
theorem apply_of_change {roster : Roster} {change : ℤ → ℤ}
    (hchange : operation.change? = some (slot, change)) :
    roster.apply operation = roster.adjust slot change := by
  cases operation with
  | increment other | decrement other | write other value =>
    obtain ⟨rfl, rfl⟩ := Prod.mk.inj (Option.some.inj hchange)
    rfl
  | insert _ | beginRenumbering | reset => cases hchange

/-- Whether or not it is refused, the beginning of a renumbering leaves a renumbered roster. -/
theorem apply_beginRenumbering (roster : Roster) :
    roster.apply .beginRenumbering = { roster with phase := .renumbered } := by
  obtain ⟨ideals, slots, values, phase⟩ := roster
  cases phase <;> rfl

section

variable {slots : List ℕ} {roster : Roster}

theorem Sound.insert (h : Sound history slots roster) (ideal : Ideal) :
    Sound (history ++ [.insert ideal]) ((roster.insert ideal).1 :: slots) (roster.insert ideal).2 := by
  obtain ⟨hlearned, hslot⟩ := learned_insert h.wellFormed ideal
  refine ⟨hlearned.wellFormed, ?_, ?_, ?_⟩
  · rw [inserted_insert]
    exact ideals_insert h.wellFormed h.ideals_eq ideal
  · intro slot
    rw [hlearned.value_eq, h.value_eq, netValue_concat history (by simp)]
    rfl
  · intro slot hmem
    rcases List.mem_cons.mp hmem with rfl | hmem
    · exact lt_size_of_ideal? hslot
    · obtain ⟨known, hknown⟩ := exists_ideal? (h.slots_lt slot hmem)
      exact lt_size_of_ideal? (hlearned.ideal_mono slot known hknown)

/-- A change of the value of a slot that exists. -/
theorem Sound.adjust (h : Sound history slots roster) {change : ℤ → ℤ}
    (hchange : operation.change? = some (slot, change)) (hslot : slot < roster.size)
    (hkeeps : operation ≠ .reset) (hnone : operation.inserted? = none) :
    Sound (history ++ [operation]) slots (roster.adjust slot change) := by
  refine ⟨h.wellFormed.adjust slot change, ?_, ?_, h.slots_lt⟩
  · rw [inserted_concat history hkeeps hnone]
    exact h.ideals_eq
  · intro other
    rw [netValue_concat history hkeeps, Operation.net, hchange]
    simp only [← h.value_eq]
    split
    next heq => rw [heq, value_adjust_self (h.wellFormed.values_size ▸ hslot)]
    next hne => rw [value_adjust_of_ne hne]

theorem Sound.apply (h : Sound history slots roster) (hallowed : operation.Allowed slots) :
    Sound (history ++ [operation]) (operation.given roster slots) (roster.apply operation) := by
  cases operation with
  | insert ideal => exact h.insert ideal
  | increment slot => exact h.adjust rfl (h.slots_lt slot hallowed) (by simp) rfl
  | decrement slot => exact h.adjust rfl (h.slots_lt slot hallowed) (by simp) rfl
  | write slot value => exact h.adjust rfl (h.slots_lt slot hallowed) (by simp) rfl
  | beginRenumbering =>
    rw [apply_beginRenumbering]
    refine ⟨⟨h.wellFormed.values_size, h.wellFormed.slot_iff⟩, ?_, ?_, h.slots_lt⟩
    · rw [inserted_concat history (by simp) rfl]
      exact h.ideals_eq
    · intro slot
      rw [netValue_concat history (by simp)]
      exact h.value_eq slot
  | reset =>
    have hnone : sinceReset (history ++ [.reset]) = [] := sinceReset_reset history
    refine ⟨wellFormed_empty, ?_, ?_, by simp [Operation.given]⟩
    · rw [inserted, hnone]
      rfl
    · intro slot
      rw [netValue, hnone]
      exact value_eq_zero_of_size_le (Nat.zero_le slot)

theorem Sound.execute (operations : List Operation) (h : Sound history slots roster)
    (hpermits : Permits roster slots operations) :
    ∃ slots, Sound (history ++ operations) slots (roster.execute operations) := by
  induction operations generalizing history slots roster with
  | nil =>
    rw [List.append_nil]
    exact ⟨slots, h⟩
  | cons operation rest ih =>
    have hrest := ih (h.apply hpermits.1) hpermits.2
    rwa [List.append_assoc] at hrest

/-- Slots keep their ideals as long as the roster is not reset. -/
theorem ideal?_execute {operations : List Operation} (hkeeps : .reset ∉ operations) {slot : ℕ}
    {ideal : Ideal} (hslot : roster.ideal? slot = some ideal) :
    (roster.execute operations).ideal? slot = some ideal := by
  induction operations generalizing roster with
  | nil => exact hslot
  | cons operation rest ih =>
    obtain ⟨hfirst, hrest⟩ := not_or.mp (List.mem_cons.not.mp hkeeps)
    apply ih hrest
    cases operation with
    | insert other => exact ideal?_insert hslot other
    | increment _ | decrement _ | write _ _ => exact hslot
    | beginRenumbering =>
      rw [apply_beginRenumbering]
      exact hslot
    | reset => exact absurd rfl hfirst

end

/-! ## Whole histories -/

/-- The slots of a roster and the ideals inserted since the last reset correspond one to one, in the order of
first insertion, and each slot has its net value. -/
structure Aligned (history : List Operation) (roster : Roster) : Prop where
  values_size : roster.values.size = roster.size
  slot_iff : ∀ ideal slot, roster.slot? ideal = some slot ↔ roster.ideal? slot = some ideal
  lt_size_iff : ∀ slot, slot < roster.size ↔ ∃ ideal ∈ inserted history, roster.ideal? slot = some ideal
  mem_inserted_iff : ∀ ideal, ideal ∈ inserted history ↔ ∃ slot, roster.slot? ideal = some slot
  ideals_eq : roster.ideals.toList = (inserted history).eraseDups
  value?_eq : ∀ slot < roster.size, roster.value? slot = some (netValue history slot)
  liveCount_eq : roster.liveCount = ((inserted history).toFinset.filter (0 < netOf history ·)).card

/-- The positive slots are the places of the ideals with a positive net value. -/
theorem Sound.liveSlots_eq {slots : List ℕ} {roster : Roster} (h : Sound history slots roster) :
    roster.liveSlots =
      ((inserted history).toFinset.filter (0 < netOf history ·)).image
        (inserted history).eraseDups.idxOf := by
  have hsize : (inserted history).eraseDups.length = roster.values.size := by
    rw [← h.ideals_eq, Array.length_toList, h.wellFormed.values_size, size]
  ext slot
  rw [mem_liveSlots, h.value_eq, Finset.mem_image]
  constructor
  · intro hpos
    have hvalue : roster.value slot ≠ 0 := by
      rw [h.value_eq]
      omega
    have hin : slot < (inserted history).eraseDups.length := hsize ▸ lt_size_of_value_ne_zero hvalue
    have hplace := (nodup_eraseDups (inserted history)).idxOf_getElem slot hin
    refine ⟨(inserted history).eraseDups[slot], ?_, hplace⟩
    rw [Finset.mem_filter, List.mem_toFinset, netOf, hplace]
    exact ⟨List.mem_eraseDups.mp (List.getElem_mem hin), hpos⟩
  · rintro ⟨ideal, hideal, rfl⟩
    exact (Finset.mem_filter.mp hideal).2

theorem Sound.aligned {slots : List ℕ} {roster : Roster} (h : Sound history slots roster) :
    Aligned history roster where
  values_size := h.wellFormed.values_size
  slot_iff := h.wellFormed.slot_iff
  lt_size_iff := by
    intro slot
    constructor
    · intro hslot
      obtain ⟨ideal, hideal⟩ := exists_ideal? hslot
      refine ⟨ideal, ?_, hideal⟩
      rw [← List.mem_eraseDups, ← h.ideals_eq, Array.mem_toList_iff]
      exact Array.mem_of_getElem? hideal
    · rintro ⟨ideal, -, hideal⟩
      exact lt_size_of_ideal? hideal
  mem_inserted_iff := by
    intro ideal
    rw [← List.mem_eraseDups, ← h.ideals_eq, ← List.mem_toFinset]
    simp only [h.wellFormed.slot_iff]
    exact mem_known
  ideals_eq := h.ideals_eq
  value?_eq := by
    intro slot hslot
    rw [← h.value_eq]
    exact value?_eq_some (h.wellFormed.values_size ▸ hslot)
  liveCount_eq := by
    rw [liveCount_eq_card, h.liveSlots_eq, Finset.card_image_of_injOn]
    intro ideal hideal other _ heq
    have hmem := List.mem_toFinset.mp (Finset.mem_filter.mp hideal).1
    exact (List.idxOf_inj (List.mem_eraseDups.mpr hmem)).mp heq

/-- After every history that changes values only in slots given since the last reset, slots and ideals are
aligned.  What comes next keeps them so: an ideal that is known is found and nothing changes; a new one gets the
next slot, with value zero; increments, decrements and writes change the value of their own slot; and slots keep
their ideals until a reset.  Without writes, values are the increments less the decrements. -/
theorem execute_aligned {history : List Operation} (hpermits : Permits empty [] history) :
    let roster := empty.execute history
    Aligned history roster ∧
      (∀ ideal slot, roster.slot? ideal = some slot → roster.insert ideal = (slot, roster)) ∧
      (∀ ideal, roster.slot? ideal = none →
        let (slot, grown) := roster.insert ideal
        slot = roster.size ∧ grown.ideals = roster.ideals.push ideal ∧
          grown.values = roster.values.push 0 ∧ grown.phase = roster.phase ∧ grown.WellFormed) ∧
      (∀ operation slot change, operation.change? = some (slot, change) → slot < roster.size →
        let changed := roster.apply operation
        changed.ideals = roster.ideals ∧ changed.slots = roster.slots ∧ changed.phase = roster.phase ∧
          ∀ other, changed.value? other =
            if other = slot then (roster.value? slot).map change else roster.value? other) ∧
      (∀ later, .reset ∉ later → ∀ slot ideal, roster.ideal? slot = some ideal →
        (roster.execute later).ideal? slot = some ideal) ∧
      ∀ slot, (∀ value, .write slot value ∉ sinceReset history) →
        roster.value slot =
          (sinceReset history).count (.increment slot) - (sinceReset history).count (.decrement slot) := by
  intro roster
  obtain ⟨slots, hsound⟩ := sound_empty.execute history hpermits
  rw [List.nil_append] at hsound
  refine ⟨hsound.aligned, fun _ _ => insert_of_known, ?_, ?_, ?_, ?_⟩
  · intro ideal hnew
    have hlearned := (learned_insert hsound.wellFormed ideal).1.wellFormed
    rw [insert_of_new hnew] at hlearned ⊢
    exact ⟨rfl, rfl, rfl, rfl, hlearned⟩
  · intro operation slot change hchange hslot
    rw [apply_of_change hchange]
    exact ⟨rfl, rfl, rfl, value?_adjust roster slot change⟩
  · intro later hkeeps slot ideal
    exact ideal?_execute hkeeps
  · intro slot hwrites
    rw [hsound.value_eq, netValue_eq_count hwrites]

/-- Two ideals are inserted after a reset, one of them again; values rise and fall, and one is written after the
beginning of a renumbering, which is then refused. -/
def sampleHistory : List Operation :=
  [.insert ⟨3, 1⟩, .increment 0, .reset, .insert ⟨5, 2⟩, .insert ⟨3, 1⟩, .increment 1, .insert ⟨5, 2⟩,
    .increment 0, .decrement 0, .beginRenumbering, .write 0 noColumn, .beginRenumbering]

theorem execute_aligned_sample :
    Permits empty [] sampleHistory ∧
      (empty.execute sampleHistory).ideals.toList = [⟨5, 2⟩, ⟨3, 1⟩] ∧
      (empty.execute sampleHistory).value 1 = 1 ∧ (empty.execute sampleHistory).liveCount = 1 := by
  have hpermits : Permits empty [] sampleHistory := by decide +kernel
  obtain ⟨haligned, -, -, -, -, hcounts⟩ := execute_aligned hpermits
  have hwrites : ∀ value, .write 1 value ∉ sinceReset sampleHistory := by
    intro value
    simp [sampleHistory, sinceReset]
  exact ⟨hpermits, haligned.ideals_eq.trans (by decide +kernel),
    (hcounts 1 hwrites).trans (by decide +kernel), haligned.liveCount_eq.trans (by decide +kernel)⟩

end SieveFilter.Roster
