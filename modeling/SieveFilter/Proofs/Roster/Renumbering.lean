import SieveFilter.Columns
import SieveFilter.Proofs.Roster.Keys
import SieveFilter.Proofs.Support.Runs
import SieveFilter.Proofs.Support.Sinks
import SieveFilter.Proofs.Text.Numerals
import Mathlib.Algebra.Group.Nat.Defs

/-!
# Renumbering

Renumbering gives the slots that are still referred to the columns from zero on, in slot order.  The column
of such a slot is the number of live slots below it, its value becomes that number plus one, and the line of
its column in the column map has the prime and the root of its ideal.
-/

namespace SieveFilter.Roster

open Text (Numeral.decimal Numeral.hex Numeral.hexText spaced terminated)

/-- The slots below a bound whose value is not zero. -/
def liveBelow (roster : Roster) (n : ℕ) : List ℕ :=
  (List.range n).filter fun slot => roster.value slot ≠ 0

/-- The column that renumbering gives to a slot, and the number of columns given before it. -/
def column (roster : Roster) (slot : ℕ) : ℕ :=
  (roster.liveBelow slot).length

/-- The value that renumbering gives to a slot. -/
def columnValue (roster : Roster) (slot : ℕ) : ℤ :=
  if roster.value slot = 0 then noColumn else roster.column slot + 1

/-- The ideal of a slot. -/
def idealAt (roster : Roster) (slot : ℕ) : Ideal :=
  (roster.ideal? slot).getD ⟨0, 0⟩

/-- The line of a column in the column map, without its line break. -/
def mapWords (column : ℕ) (ideal : Ideal) : List Char :=
  spaced (Numeral.decimal column) [Numeral.hex ideal.p, Numeral.hex ideal.r]

/-- The column map of the slots below a bound. -/
def mapText (roster : Roster) (n : ℕ) : List Char :=
  terminated ((roster.liveBelow n).map fun slot =>
    mapWords (roster.column slot) (roster.idealAt slot))

theorem toList_mapLine (column : ℕ) (ideal : Ideal) :
    (Numbering.mapLine column ideal).toList = mapWords column ideal ++ ['\n'] := by
  have htext (text : String) : toString text = text := rfl
  simp [Numbering.mapLine, mapWords, spaced, Numeral.hexText, Numeral.decimal, Nat.toList_repr, htext]

theorem liveBelow_succ_of_eq_zero {roster : Roster} {slot : ℕ} (hzero : roster.value slot = 0) :
    roster.liveBelow (slot + 1) = roster.liveBelow slot := by
  simp [liveBelow, List.range_succ, hzero]

theorem liveBelow_succ_of_ne_zero {roster : Roster} {slot : ℕ} (hlive : roster.value slot ≠ 0) :
    roster.liveBelow (slot + 1) = roster.liveBelow slot ++ [slot] := by
  simp [liveBelow, List.range_succ, hlive]

theorem mem_liveBelow {roster : Roster} {n slot : ℕ} :
    slot ∈ roster.liveBelow n ↔ slot < n ∧ roster.value slot ≠ 0 := by
  simp [liveBelow]

/-- Live slots have the columns from zero on, in order. -/
theorem map_column_liveBelow (roster : Roster) (n : ℕ) :
    (roster.liveBelow n).map roster.column = List.range (roster.column n) := by
  induction n with
  | zero => rfl
  | succ n ih =>
    by_cases hzero : roster.value n = 0
    · rw [liveBelow_succ_of_eq_zero hzero, ih, column, column, liveBelow_succ_of_eq_zero hzero]
    · rw [liveBelow_succ_of_ne_zero hzero, List.map_append, ih, column, column,
        liveBelow_succ_of_ne_zero hzero, List.length_append, List.length_singleton,
        List.range_succ]
      rfl

/-- The column of a live slot is its position among the live slots. -/
theorem column_eq_of_getElem? {roster : Roster} {n position slot : ℕ}
    (hposition : (roster.liveBelow n)[position]? = some slot) : roster.column slot = position := by
  have hcolumn : (List.range (roster.column n))[position]? = some (roster.column slot) := by
    rw [← map_column_liveBelow, List.getElem?_map, hposition, Option.map_some]
  obtain ⟨hin, hvalue⟩ := List.getElem?_eq_some_iff.mp hcolumn
  rw [List.getElem_range] at hvalue
  exact hvalue.symm

/-- The slot with a given column stands at the position of that number among the live slots. -/
theorem getElem?_liveBelow_column {roster : Roster} {n slot : ℕ}
    (hslot : slot ∈ roster.liveBelow n) :
    (roster.liveBelow n)[roster.column slot]? = some slot := by
  obtain ⟨position, hposition⟩ := List.mem_iff_getElem?.mp hslot
  rwa [column_eq_of_getElem? hposition]

theorem column_le (roster : Roster) (n : ℕ) : roster.column n ≤ n := by
  have hle := List.length_filter_le (fun slot => decide (roster.value slot ≠ 0)) (List.range n)
  rwa [List.length_range] at hle

/-! ## The walk over the slots -/

/-- A line is written to the map, if there is one. -/
theorem writeLine_eq {roster : Roster} {map : Option Sink} (hfree : ∀ sink ∈ map, sink.limit = none)
    (text : List Char) (columns singletons : ℕ) (ideal : Ideal) :
    Numbering.writeLine ⟨roster, map.map (·.appended text), columns, singletons⟩ ideal =
      .done ⟨roster, map.map (·.appended (text ++ (mapWords columns ideal ++ ['\n']))), columns,
        singletons⟩ () := by
  cases map with
  | none => rfl
  | some sink =>
    have hput := Sink.put_appended (hfree sink rfl) text (Numbering.mapLine columns ideal)
    rw [toList_mapLine] at hput
    simp only [Numbering.writeLine, Option.map_some, hput]

/-- A renumbering on its way: the slots below `n` have got their columns, and the map, if there is one, has
their lines. -/
structure Numbered (roster : Roster) (map : Option Sink) (n : ℕ) (numbering : Numbering) : Prop where
  ideals_eq : numbering.roster.ideals = roster.ideals
  slots_eq : numbering.roster.slots = roster.slots
  phase_eq : numbering.roster.phase = .renumbered
  values_size_eq : numbering.roster.values.size = roster.values.size
  value_eq : ∀ slot, numbering.roster.value slot =
    if slot < n then roster.columnValue slot else roster.value slot
  columns_eq : numbering.columns = roster.column n
  map_eq : numbering.map = map.map (·.appended (roster.mapText n))

/-- The value of the next slot is written, and the others stay. -/
theorem value_write_next {roster current : Roster} {n : ℕ}
    (hvalue : ∀ slot, current.value slot =
      if slot < n then roster.columnValue slot else roster.value slot)
    (hn : n < current.values.size) (slot : ℕ) :
    (current.write n (roster.columnValue n)).value slot =
      if slot < n + 1 then roster.columnValue slot else roster.value slot := by
  by_cases heq : slot = n
  · subst heq
    rw [write, value_adjust_self hn, if_pos (Nat.lt_succ_self slot)]
  · rw [write, value_adjust_of_ne heq, hvalue]
    by_cases hlt : slot < n
    · rw [if_pos hlt, if_pos (by omega)]
    · rw [if_neg hlt, if_neg (by omega)]

section

variable {roster : Roster} {map : Option Sink} {n : ℕ} {numbering : Numbering}

/-- A slot without references gets no column. -/
theorem numbered_take_of_eq_zero (hsize : roster.values.size = roster.size) (hn : n < roster.size)
    (hzero : roster.value n = 0) (h : Numbered roster map n numbering) :
    ∃ after, (numbering.take n).Ends after true ∧ (numbering.take n).Quiet ∧
      Numbered roster map (n + 1) after := by
  obtain ⟨current, written, columns, singletons⟩ := numbering
  obtain ⟨hideals, hslots, hphase, hvaluesSize, hvalue, rfl, hmap⟩ := h
  simp only at hideals hslots hphase hvaluesSize hvalue hmap
  have hcount : current.value n = 0 := by
    rw [hvalue, if_neg (Nat.lt_irrefl n), hzero]
  have hwrite := value_write_next hvalue (by omega : n < current.values.size)
  have hcolumnValue : roster.columnValue n = noColumn := if_pos hzero
  unfold Numbering.take
  simp only [hcount, if_true]
  refine ⟨_, Run.ends_done.mpr ⟨rfl, rfl⟩, Run.quiet_done _ _, hideals, hslots, hphase, ?_, ?_, ?_, ?_⟩
  · exact (adjust_values_size _ _ _).trans hvaluesSize
  · rw [← hcolumnValue]
    exact hwrite
  · rw [column, column, liveBelow_succ_of_eq_zero hzero]
  · rwa [mapText, liveBelow_succ_of_eq_zero hzero]

/-- A slot with references gets the next column, whose line is written to the map.  That makes no warning
unless there is only one reference. -/
theorem numbered_take_of_ne_zero (hsize : roster.values.size = roster.size)
    (hfree : ∀ sink ∈ map, sink.limit = none) (hn : n < roster.size) (hlive : roster.value n ≠ 0)
    (h : Numbered roster map n numbering) :
    ∃ after, (numbering.take n).Ends after true ∧
      (roster.value n ≠ 1 → (numbering.take n).Quiet) ∧ Numbered roster map (n + 1) after := by
  obtain ⟨current, written, columns, singletons⟩ := numbering
  obtain ⟨hideals, hslots, hphase, hvaluesSize, hvalue, rfl, rfl⟩ := h
  simp only at hideals hslots hphase hvaluesSize hvalue
  have hcount : current.value n = roster.value n := by
    rw [hvalue, if_neg (Nat.lt_irrefl n)]
  have hwrite := value_write_next hvalue (by omega : n < current.values.size)
  have hcolumnValue : roster.columnValue n = (roster.column n + 1 : ℕ) := by
    rw [columnValue, if_neg hlive]
    rfl
  obtain ⟨ideal, hideal⟩ := exists_ideal? hn
  have hcurrent : current.ideal? n = some ideal := by
    rw [ideal?, hideals]
    exact hideal
  have hidealAt : roster.idealAt n = ideal := by
    rw [idealAt, hideal, Option.getD_some]
  have htext : roster.mapText (n + 1) =
      roster.mapText n ++ (mapWords (roster.column n) ideal ++ ['\n']) := by
    rw [mapText, liveBelow_succ_of_ne_zero hlive, List.map_append, Text.terminated_append]
    simp [hidealAt, mapText]
  have hgive (singletons : ℕ) : Numbering.giveColumn ⟨current, map.map (·.appended (roster.mapText n)),
      roster.column n, singletons⟩ n ideal =
      .done ⟨current.write n (roster.column n + 1), map.map (·.appended (roster.mapText (n + 1))),
        roster.column n + 1, singletons⟩ true := by
    simp only [Numbering.giveColumn, writeLine_eq hfree, Run.next_done, htext]
  unfold Numbering.take
  simp only [hcount, hlive, hcurrent, if_false, hgive]
  refine ⟨_, Run.ends_afterAll.mpr (Run.ends_done.mpr ⟨rfl, rfl⟩), ?_, hideals, hslots, hphase, ?_, ?_, ?_,
    rfl⟩
  · intro hpaired
    simp only [hpaired, false_and, if_false]
    exact (Run.quiet_done _ _).afterAll (by simp)
  · exact (adjust_values_size _ _ _).trans hvaluesSize
  · rw [hcolumnValue] at hwrite
    exact hwrite
  · simp only [column, liveBelow_succ_of_ne_zero hlive, List.length_append, List.length_singleton]

/-- Each slot is renumbered in turn. -/
theorem numbered_take (hsize : roster.values.size = roster.size)
    (hfree : ∀ sink ∈ map, sink.limit = none) (hn : n < roster.size)
    (h : Numbered roster map n numbering) :
    ∃ after, (numbering.take n).Ends after true ∧
      ((∀ slot, roster.value slot ≠ 1) → (numbering.take n).Quiet) ∧
      Numbered roster map (n + 1) after := by
  by_cases hzero : roster.value n = 0
  · obtain ⟨after, hends, hquiet, hnumbered⟩ := numbered_take_of_eq_zero hsize hn hzero h
    exact ⟨after, hends, fun _ => hquiet, hnumbered⟩
  · obtain ⟨after, hends, hquiet, hnumbered⟩ := numbered_take_of_ne_zero hsize hfree hn hzero h
    exact ⟨after, hends, fun hpaired => hquiet (hpaired n), hnumbered⟩

end

/-! ## The result -/

/-- A roster after renumbering. -/
structure Renumbered (before after : Roster) : Prop where
  ideals_eq : after.ideals = before.ideals
  slots_eq : after.slots = before.slots
  phase_eq : after.phase = .renumbered
  values_size_eq : after.values.size = before.values.size
  value_eq : ∀ slot < before.size, after.value slot = before.columnValue slot

/-- Renumbering a roster that counts succeeds, and writes the lines of all columns to the map, if there is
one and it has no limit.  No warning is made if no slot has a single reference. -/
theorem exists_renumbered {roster : Roster} (hphase : roster.phase = .counting)
    (hsize : roster.values.size = roster.size) {map : Option Sink}
    (hfree : ∀ sink ∈ map, sink.limit = none) :
    ∃ after, (roster.renumber map).Ends (after, map.map (·.appended (roster.mapText roster.size)))
        (roster.column roster.size) ∧
      ((∀ slot, roster.value slot ≠ 1) → (roster.renumber map).Quiet) ∧ Renumbered roster after := by
  have hbegin : roster.beginRenumbering = .ok { roster with phase := .renumbered } := by
    simp only [beginRenumbering, hphase]
  have hmap : map.map (·.appended []) = map := by
    simp [Sink.appended_nil]
  have hstart : Numbered roster map 0 ⟨{ roster with phase := .renumbered }, map, 0, 0⟩ :=
    ⟨rfl, rfl, rfl, rfl, fun _ => rfl, rfl, hmap.symm⟩
  obtain ⟨⟨after, written, columns, singletons⟩, hends, hquiet, hnumbered⟩ :=
    Run.exists_each_range (fun n hn _ h => numbered_take hsize hfree hn h) hstart
  obtain ⟨hideals, hslots, hphaseAfter, hvaluesSize, hvalue, rfl, rfl⟩ := hnumbered
  refine ⟨after, ?_, ?_, ⟨hideals, hslots, hphaseAfter, hvaluesSize, ?_⟩⟩
  · simp only [renumber, hbegin]
    exact Run.ends_within.mpr ⟨_, Run.ends_next.mpr
      ⟨_, (), hends, Run.ends_after.mpr (Run.ends_done.mpr ⟨rfl, rfl⟩)⟩, rfl⟩
  · intro hpaired
    simp only [renumber, hbegin]
    refine Run.Quiet.within ((hquiet hpaired).next fun state value _ => ?_) _
    exact (Run.quiet_done _ _).after (by simp [Notice.level])
  · intro slot hslot
    rw [hvalue slot, if_pos hslot]

/-- On a fresh sink the column map is all that the sink holds. -/
theorem exists_renumber {roster : Roster} (hphase : roster.phase = .counting)
    (hsize : roster.values.size = roster.size) (hpaired : ∀ slot, roster.value slot ≠ 1)
    {map : Option Sink} (hmap : ∀ sink ∈ map, sink.Holds []) :
    ∃ after written, (roster.renumber map).Ends (after, written) (roster.column roster.size) ∧
      (roster.renumber map).Quiet ∧ Renumbered roster after ∧ written.isSome = map.isSome ∧
        ∀ sink ∈ written, sink.Holds (roster.mapText roster.size) := by
  obtain ⟨after, hends, hquiet, hrenumbered⟩ :=
    exists_renumbered hphase hsize fun sink hsink => (hmap sink hsink).1
  refine ⟨after, _, hends, hquiet hpaired, hrenumbered, Option.isSome_map, ?_⟩
  intro written hwritten
  obtain ⟨sink, hsink, rfl⟩ := Option.map_eq_some_iff.mp hwritten
  exact (hmap sink hsink).appended _

/-- The value of a slot after renumbering means its column, counted from one, or that it has none. -/
theorem Renumbered.entry_eq {before after : Roster} (h : Renumbered before after)
    (hsize : before.values.size = before.size) (hsmall : before.size < 2 ^ 32) {slot : ℕ}
    (hslot : slot < before.size) :
    after.meaning? slot =
      some (if before.value slot = 0 then .eliminated else .column (before.column slot + 1)) := by
  have hbound : slot < after.values.size := by
    rw [h.values_size_eq, hsize]
    exact hslot
  have hvalue : after.value? slot = some (before.columnValue slot) := by
    rw [← h.value_eq slot hslot, value?_eq_some hbound]
  rw [meaning?, hvalue, Option.map_some, h.phase_eq]
  by_cases hzero : before.value slot = 0
  · rw [columnValue, if_pos hzero, if_pos hzero, Entry.ofValue, if_pos rfl]
  · have hle := column_le before slot
    have hnumber : (before.column slot + 1 : ℤ) ≠ noColumn := by
      simp only [noColumn]
      omega
    rw [columnValue, if_neg hzero, if_neg hzero, Entry.ofValue, if_neg hnumber, if_neg (by omega),
      Nat.pow_eq]
    congr 2
    omega

/-- The column that is looked up for an ideal that is referred to is that of its slot. -/
theorem Renumbered.columnOf_eq {before after : Roster} (h : Renumbered before after)
    (hwellFormed : before.WellFormed) (hsmall : before.size < 2 ^ 32) {slot : ℕ} {ideal : Ideal}
    (hslot : before.ideal? slot = some ideal) (hlive : before.value slot ≠ 0) :
    after.columnOf ideal = .ok (some (before.column slot)) := by
  have hfound : after.slot? ideal = some slot := by
    rw [slot?, h.slots_eq]
    exact (hwellFormed.slot_iff ideal slot).mpr hslot
  have hentry := h.entry_eq hwellFormed.values_size hsmall (lt_size_of_ideal? hslot)
  rw [if_neg hlive] at hentry
  simp only [columnOf, h.phase_eq, hfound, Option.bind_some, hentry, Nat.add_sub_cancel]

/-- No column is looked up for an ideal that is not referred to, or that the roster does not know. -/
theorem Renumbered.columnOf_eq_none {before after : Roster} (h : Renumbered before after)
    (hwellFormed : before.WellFormed) (hsmall : before.size < 2 ^ 32) {ideal : Ideal}
    (hdead : ∀ slot, before.ideal? slot = some ideal → before.value slot = 0) :
    after.columnOf ideal = .ok none := by
  have hslots : after.slot? ideal = before.slot? ideal := by
    rw [slot?, slot?, h.slots_eq]
  cases hfound : before.slot? ideal with
  | none => simp only [columnOf, h.phase_eq, hslots, hfound, Option.bind_none]
  | some slot =>
    have hslot := (hwellFormed.slot_iff ideal slot).mp hfound
    have hentry := h.entry_eq hwellFormed.values_size hsmall (lt_size_of_ideal? hslot)
    rw [if_pos (hdead slot hslot)] at hentry
    simp only [columnOf, h.phase_eq, hslots, hfound, Option.bind_some, hentry]

/-! ## What a renumbering keeps -/

section Keeps

variable {Invariant : Roster → Option Sink → Prop}
  (hvalue : ∀ roster map slot value, Invariant roster map → Invariant (roster.write slot value) map)
  (hline : ∀ roster sink text, Invariant roster (some sink) → Invariant roster (some (sink.put text).1))

include hline

theorem Numbering.writeLine_keeps {numbering : Numbering} (ideal : Ideal)
    (h : Invariant numbering.roster numbering.map) :
    Invariant (numbering.writeLine ideal).state.roster (numbering.writeLine ideal).state.map := by
  obtain ⟨roster, map, columns, singletons⟩ := numbering
  cases map with
  | none => exact h
  | some sink =>
    have hput := hline roster sink (mapLine columns ideal) h
    simp only [writeLine]
    generalize sink.put (mapLine columns ideal) = written at hput ⊢
    obtain ⟨written, fits⟩ := written
    cases fits with
    | true => exact hput
    | false => exact hput

include hvalue

/-- The renumbering of a slot keeps what is kept by a change of its value and by a line of the map. -/
theorem Numbering.take_keeps (numbering : Numbering) (slot : ℕ)
    (h : Invariant numbering.roster numbering.map) :
    Invariant (numbering.take slot).state.roster (numbering.take slot).state.map := by
  obtain ⟨roster, map, columns, singletons⟩ := numbering
  simp only [take]
  split
  · exact hvalue roster map slot noColumn h
  · split
    next => exact h
    next ideal _ =>
      let line := writeLine ⟨roster.write slot (columns + 1), map, columns,
        if roster.value slot = 1 then singletons + 1 else singletons⟩ ideal
      have hwritten : Invariant line.state.roster line.state.map :=
        writeLine_keeps hline ideal (hvalue roster map slot (columns + 1) h)
      exact Run.next_keeps (fun numbering : Numbering => Invariant numbering.roster numbering.map)
        hwritten fun _ _ hstate => hstate

/-- What is left of roster and map wherever a renumbering stops, the phase being changed first. -/
theorem renumber_keeps {roster : Roster} {map : Option Sink}
    (hbegin : roster.phase = .counting → Invariant { roster with phase := .renumbered } map)
    (hrefused : roster.phase = .renumbered → Invariant roster map) :
    Invariant (roster.renumber map).state.1 (roster.renumber map).state.2 := by
  cases hphase : roster.phase with
  | renumbered =>
    simp only [renumber, beginRenumbering, hphase]
    exact hrefused hphase
  | counting =>
    let Kept (numbering : Numbering) : Prop := Invariant numbering.roster numbering.map
    have hstart : Kept ⟨{ roster with phase := .renumbered }, map, 0, 0⟩ := hbegin hphase
    have hwalk := Run.each_keeps Kept (Numbering.take_keeps hvalue hline) hstart
      (List.range roster.size)
    simp only [renumber, beginRenumbering, hphase]
    exact Run.next_keeps Kept hwalk fun _ _ hstate => hstate

end Keeps

end SieveFilter.Roster
