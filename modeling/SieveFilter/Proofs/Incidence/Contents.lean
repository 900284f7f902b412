import SieveFilter.Proofs.Incidence.Emission

/-!
# Contents of loaded tables

A loading that succeeds leaves a table whose contents are determined by the lines and the bounds.  Every used
row has the ideals that count for its line, ideals have slots in the order in which the used rows first have
them, and each slot counts the used rows that have its ideal.  One invariant carries this along the stream: what
the used rows met so far have put into the table, into the roster and into the summary.
-/

namespace SieveFilter

/-- The relation of a row of an input, if there is a line for it that can be read. -/
def Relation.ofRow? (lines : List String) (row : ℕ) : Option Relation :=
  lines[row]?.bind fun line => (ofLine line).toOption

theorem Relation.ofRow?_eq_some {lines : List String} {row : ℕ} {line : String} {relation : Relation}
    (hline : lines[row]? = some line) (hread : ofLine line = .ok relation) :
    ofRow? lines row = some relation := by
  rw [ofRow?, hline, Option.bind_some, hread]
  rfl

namespace Incidence

/-- The ideals above bounds of the relation of a row, its exponents reduced unless it is free. -/
def readIdeals (lines : List String) (bounds : Bounds) (row : ℕ) : List Ideal :=
  ((Relation.ofRow? lines row).map (·.forMatrix.idealsAbove bounds)).getD []

/-- The rows of a list whose relations are free. -/
def freeRows (lines : List String) (rows : List ℕ) : List ℕ :=
  rows.filter fun row => (Relation.ofRow? lines row).any (·.b == 0)

theorem length_freeRows_concat {lines : List String} {row : ℕ} {relation : Relation}
    (hrelation : Relation.ofRow? lines row = some relation) (rows : List ℕ) :
    (freeRows lines (rows ++ [row])).length =
      if relation.isFree then (freeRows lines rows).length + 1 else (freeRows lines rows).length := by
  by_cases hfree : (relation.b == 0) = true
  · simp [freeRows, hrelation, hfree, Relation.isFree]
  · simp [freeRows, hrelation, hfree, Relation.isFree]

theorem readIdeals_eq_admitted (lines : List String) (bounds : Bounds) :
    readIdeals lines bounds = admitted lines bounds := by
  funext row
  cases hline : lines[row]? with
  | none => simp [readIdeals, Relation.ofRow?, Rows.restrict, Relation.rowIdeals, hline]
  | some line =>
    cases hread : Relation.ofLine line with
    | error cause =>
      simp [readIdeals, Relation.ofRow?, Rows.restrict, Relation.rowIdeals, Relation.lineIdeals, hline, hread,
        Except.toOption]
    | ok relation =>
      rw [readIdeals, Relation.ofRow?_eq_some hline hread]
      exact Loading.idealsAbove_eq_admitted hline hread

/-- What a loading leaves in a table. -/
structure Contents (ideals : ℕ → List Ideal) (table after : Incidence) : Prop where
  used_eq : after.used = table.used
  liveRows_eq : after.liveRows = table.liveRows
  listed : ∀ row ∈ table.usedSet, ∃ handle, after.lists.getD row none = some handle ∧
    (after.list row).map after.roster.ideal? = (ideals row).map some
  unlisted : ∀ row ∉ table.usedSet, after.lists.getD row none = none
  /-- Slots are numbered in the order in which the used rows first have their ideals. -/
  ideals_eq : after.roster.ideals.toList = (table.usedRows.flatMap ideals).eraseDups
  slot_iff : ∀ ideal slot, after.roster.slot? ideal = some slot ↔ after.roster.ideal? slot = some ideal
  exists_slot_iff : ∀ ideal, (∃ slot, after.roster.slot? ideal = some slot) ↔
    ∃ row ∈ table.usedSet, ideal ∈ ideals row
  count_eq : ∀ ideal slot, after.roster.slot? ideal = some slot →
    after.count slot = (table.usedSet.filter fun row => ideal ∈ ideals row).card
  size_eq : after.roster.size = after.liveIdeals
  liveIdeals_eq : after.liveIdeals = (Rows.referenced ideals table.usedSet).card

/-! ## Registering -/

theorem foldl_addReference_ideals (table : Incidence) (slots : List ℕ) :
    (slots.foldl addReference table).roster.ideals = table.roster.ideals := by
  induction slots generalizing table with
  | nil => rfl
  | cons slot rest ih =>
    rw [List.foldl_cons, ih]
    rfl

/-- Counting references gives no slots, so after a registration the roster has those that its list needed. -/
theorem ideals_of_ends_register {table after : Incidence} {row : ℕ} {ideals : List Ideal}
    (hends : (table.register row ideals).Ends after ()) :
    after.roster.ideals = (slotsOf table.roster ideals).2.ideals := by
  obtain ⟨used, lists, arena, roster, liveRows, liveIdeals⟩ := table
  obtain ⟨middle, handle, hstored, hdone⟩ := Run.ends_next.mp hends
  obtain ⟨inner, -, rfl⟩ := Run.ends_within.mp hstored
  obtain ⟨rfl, -⟩ := Run.ends_done.mp hdone
  rw [foldl_addReference_ideals]

/-- Wherever the registration of the next row ends, the invariant of a loading is kept. -/
theorem Loaded.registered_of_ends {ideals : ℕ → List Ideal} {start table after : Incidence} {n : ℕ}
    (h : Loaded ideals start n table) (hn : n ∈ table.usedSet)
    (hlaid : start.arena.capacity ≤ Arena.maxCapacity)
    (hfew : (table.roster.known ∪ (ideals n).toFinset).card ≤ Arena.sentinel)
    (hends : (table.register n (ideals n)).Ends after ()) : Loaded ideals start (n + 1) after := by
  have hrow : n < table.lists.size := h.lists_size ▸ lt_size_of_mem_usedSet hn
  have hnonneg (slot : ℕ) : 0 ≤ table.count slot := by
    rw [h.count_eq]
    exact Int.natCast_nonneg _
  have hshort : (ideals n).length + 1 ≤ table.arena.capacity := by
    by_contra hlong
    exact not_ends_register (Nat.lt_of_not_le hlong) after hends
  obtain ⟨other, hother, hregistered⟩ := registered_register n (ideals n) h.wellFormed hrow
    h.liveIdeals_eq hnonneg hshort (h.capacity_eq ▸ hlaid) hfew
  obtain ⟨rfl, -⟩ := hends.unique hother
  exact h.registered hn hregistered

namespace Loading

variable {lines : List String} {bounds : Bounds} {start : Incidence} {n : ℕ} {loading after : Loading}

/-- What the lines of the rows below `n` have put into a loading that began with the table `start`. -/
structure Filled (lines : List String) (bounds : Bounds) (start : Incidence) (n : ℕ) (loading : Loading) :
    Prop where
  loaded : Loaded (admitted lines bounds) start n loading.table
  ideals_eq : loading.table.roster.ideals.toList =
    ((start.usedBelow n).flatMap (admitted lines bounds)).eraseDups
  scanned_eq : loading.summary.scanned = n
  registered_eq : loading.summary.registered = (start.usedBelow n).length
  free_eq : loading.summary.free = (freeRows lines (start.usedBelow n)).length

theorem filled_start {table : Incidence} (h : table.Vacant) :
    Filled lines bounds { table with liveIdeals := 0 } 0 ⟨{ table with liveIdeals := 0 }, ⟨0, 0, 0⟩⟩ where
  loaded := h.loaded _
  ideals_eq := by
    have hempty : table.roster.ideals = #[] := Array.eq_empty_of_size_eq_zero h.roster_size
    simp [hempty, usedBelow]
  scanned_eq := rfl
  registered_eq := rfl
  free_eq := rfl

/-- Every ideal that has a slot belongs to a used row that was met. -/
theorem Filled.exists_row_of_known (h : Filled lines bounds start n loading) {ideal : Ideal}
    (hideal : ideal ∈ loading.table.roster.known) :
    ∃ row ∈ start.usedSet, row < n ∧ ideal ∈ admitted lines bounds row := by
  rw [Roster.known, h.ideals_eq, List.mem_toFinset, List.mem_eraseDups, List.mem_flatMap] at hideal
  obtain ⟨row, hbelow, hmem⟩ := hideal
  obtain ⟨hrange, hused⟩ := List.mem_filter.mp hbelow
  exact ⟨row, mem_usedSet.mpr hused, List.mem_range.mp hrange, hmem⟩

/-- There are slots enough for the ideals of the next used row. -/
theorem Filled.card_known_le (h : Filled lines bounds start n loading) (hrow : n ∈ start.usedSet)
    (hfew : (Rows.referenced (admitted lines bounds) start.usedSet).card ≤ Arena.sentinel) :
    (loading.table.roster.known ∪ (admitted lines bounds n).toFinset).card ≤ Arena.sentinel := by
  refine (Finset.card_le_card (Finset.union_subset ?_ ?_)).trans hfew
  · intro ideal hideal
    obtain ⟨row, hrow, -, hmem⟩ := h.exists_row_of_known hideal
    exact Rows.mem_referenced.mpr ⟨row, hrow, hmem⟩
  · intro ideal hideal
    exact Rows.mem_referenced.mpr ⟨n, hrow, List.mem_toFinset.mp hideal⟩

/-- The line of a used row puts in the ideals of that row. -/
theorem Filled.register (h : Filled lines bounds start n loading) {line : String}
    (hline : lines[n]? = some line) (hrow : n ∈ start.usedSet)
    (hlaid : start.arena.capacity ≤ Arena.maxCapacity)
    (hfew : (Rows.referenced (admitted lines bounds) start.usedSet).card ≤ Arena.sentinel) {more : Bool}
    (hends : (register bounds { loading with summary := { loading.summary with scanned := n + 1 } } n
      line).Ends after more) :
    (Relation.ofRow? lines n).isSome ∧ Filled lines bounds start (n + 1) after := by
  obtain ⟨hloaded, hideals, hscanned, hregistered, hfree⟩ := h
  have hused : start.isUsed n = true := mem_usedSet.mp hrow
  have hrowTable : n ∈ loading.table.usedSet := by
    rw [usedSet, hloaded.used_eq]
    exact hrow
  unfold Loading.register at hends
  cases hread : Relation.ofLine line with
  | error cause =>
    rw [hread] at hends
    exact absurd hends Run.not_ends_fail
  | ok relation =>
    simp only [hread, idealsAbove_eq_admitted hline hread] at hends
    obtain ⟨middle, _, hstored, hdone⟩ := Run.ends_next.mp hends
    obtain ⟨table, hregister, rfl⟩ := Run.ends_within.mp hstored
    obtain ⟨rfl, -⟩ := Run.ends_done.mp hdone
    have hknown := card_known_le ⟨hloaded, hideals, hscanned, hregistered, hfree⟩ hrow hfew
    have hrelation := Relation.ofRow?_eq_some hline hread
    refine ⟨Option.isSome_of_eq_some hrelation,
      hloaded.registered_of_ends hrowTable hlaid hknown hregister, ?_, rfl, ?_, ?_⟩
    · rw [ideals_of_ends_register hregister, usedBelow_succ_of_used hused, List.flatMap_append,
        List.flatMap_singleton]
      exact ideals_slotsOf hloaded.wellFormed hideals _
    · simp [usedBelow_succ_of_used hused, hregistered]
    · rw [usedBelow_succ_of_used hused, length_freeRows_concat hrelation, hfree]

/-- A line that is taken puts in what its row lists, which is nothing for a row that is not used. -/
theorem Filled.takeLine (h : Filled lines bounds start n loading) {line : String}
    (hline : lines[n]? = some line) (hlaid : start.arena.capacity ≤ Arena.maxCapacity)
    (hfew : (Rows.referenced (admitted lines bounds) start.usedSet).card ≤ Arena.sentinel) {more : Bool}
    (hends : (takeLine bounds loading line).Ends after more) :
    (n ∈ start.usedSet → (Relation.ofRow? lines n).isSome) ∧ Filled lines bounds start (n + 1) after := by
  have hused : loading.table.isUsed n = start.isUsed n := by rw [isUsed, isUsed, h.loaded.used_eq]
  simp only [Loading.takeLine, h.scanned_eq, hused] at hends
  split at hends
  · exact absurd hends Run.not_ends_fail
  · rw [Run.ends_afterAll] at hends
    split at hends
    next hrow =>
      obtain ⟨hread, hfilled⟩ := h.register hline (mem_usedSet.mpr hrow) hlaid hfew hends
      exact ⟨fun _ => hread, hfilled⟩
    next hrow =>
      have hunused : n ∉ start.usedSet := mt mem_usedSet.mp hrow
      have hbelow := usedBelow_succ_of_unused (Bool.eq_false_iff.mpr hrow)
      have hskip : n ∉ loading.table.usedSet := by rwa [usedSet, h.loaded.used_eq]
      obtain ⟨rfl, -⟩ := Run.ends_done.mp hends
      refine ⟨fun hmem => absurd hmem hunused, h.loaded.skip hskip, ?_, rfl, ?_, ?_⟩
      · rw [hbelow]
        exact h.ideals_eq
      · rw [hbelow]
        exact h.registered_eq
      · rw [hbelow]
        exact h.free_eq

/-- The lines that are left of an input are taken one after the other. -/
theorem Filled.each {events : List Event} {rest : List String} (hyields : Event.Yields events rest)
    (hn : n ≤ lines.length) (hrest : lines.drop n = rest) (h : Filled lines bounds start n loading)
    (hlaid : start.arena.capacity ≤ Arena.maxCapacity)
    (hfew : (Rows.referenced (admitted lines bounds) start.usedSet).card ≤ Arena.sentinel)
    (hends : (Run.each (take bounds) loading events).Ends after ()) :
    (∀ row ∈ start.usedSet, n ≤ row → row < lines.length → (Relation.ofRow? lines row).isSome) ∧
      Filled lines bounds start lines.length after := by
  induction hyields generalizing n loading with
  | nil =>
    have hend : lines.length ≤ n := List.drop_eq_nil_iff.mp hrest
    obtain ⟨rfl, -⟩ := Run.ends_done.mp hends
    exact ⟨fun row _ hle hlt => absurd (hend.trans hle) (Nat.not_le_of_lt hlt), le_antisymm hn hend ▸ h⟩
  | opened _ ih =>
    obtain ⟨middle, more, hfirst, hlater⟩ := Run.ends_each_cons.mp hends
    obtain ⟨rfl, rfl⟩ := Run.ends_done.mp hfirst
    exact ih hn hrest h hlater
  | @line text events rest _ ih =>
    obtain ⟨hline, hdrop⟩ := next_of_drop hrest
    have hin : n < lines.length := (List.getElem?_eq_some_iff.mp hline).1
    obtain ⟨middle, more, hfirst, hlater⟩ := Run.ends_each_cons.mp hends
    obtain ⟨rfl, -⟩ := more_of_ends_take hfirst
    obtain ⟨hfirstRead, hmiddle⟩ := h.takeLine hline hlaid hfew hfirst
    obtain ⟨hread, hfilled⟩ := ih hin hdrop hmiddle hlater
    refine ⟨?_, hfilled⟩
    intro row hrow hle hlt
    rcases Nat.eq_or_lt_of_le hle with rfl | hafter
    · exact hfirstRead hrow
    · exact hread row hrow hafter hlt

end Loading

/-! ## Loaded tables -/

variable {table after : Incidence} {build : Build} {bounds : Bounds} {events : List Event}
  {summary : LoadSummary}

/-- What the used rows have put into a table determines its contents. -/
theorem contents_of_loaded {ideals : ℕ → List Ideal} {n : ℕ} (hready : table.Ready)
    (hnodup : ∀ row, (ideals row).Nodup)
    (hloaded : Loaded ideals { table with liveIdeals := 0 } n after) (hn : n = table.size)
    (hideals : after.roster.ideals.toList = (table.usedRows.flatMap ideals).eraseDups) :
    Contents ideals table after := by
  have hused : after.usedSet = table.usedSet := by
    rw [usedSet, usedSet, hloaded.used_eq]
  have hsize : after.size = n := by
    rw [hn, size, hloaded.used_eq, size]
  have hrepresents := hloaded.represents hsize.le hready.liveRows_eq
  have hslots := hloaded.wellFormed.slot_iff
  have hmem (ideal : Ideal) : ideal ∈ after.roster.known ↔ ∃ row ∈ table.usedSet, ideal ∈ ideals row := by
    rw [Roster.known, hideals, List.mem_toFinset, List.mem_eraseDups, List.mem_flatMap]
    simp only [← toFinset_usedRows, List.mem_toFinset]
  refine ⟨hloaded.used_eq, hloaded.liveRows_eq, ?_, ?_, hideals, hslots, ?_, ?_, ?_, ?_⟩
  · intro row hrow
    rw [← hused] at hrow
    obtain ⟨handle, slots, hlist, hholds, hmap⟩ :=
      hloaded.held row hrow (hsize ▸ lt_size_of_mem_usedSet hrow)
    exact ⟨handle, hlist, (list_of_held hlist hholds).symm ▸ hmap⟩
  · intro row hrow
    exact hloaded.unlisted row (.inl (hused ▸ hrow))
  · intro ideal
    simp only [hslots, ← hmem, Roster.mem_known]
  · intro ideal slot hslot
    rw [hrepresents.count_eq ((hslots ideal slot).mp hslot), hused,
      Rows.references_eq_card fun row _ => hnodup row]
  · rw [hrepresents.liveIdeals_eq, hused, ← hloaded.wellFormed.card_known]
    congr 1
    ext ideal
    rw [hmem, Rows.mem_referenced]
  · rw [hrepresents.liveIdeals_eq, hused]

/-- A slot counts at most all rows. -/
theorem Contents.count_le_size {ideals : ℕ → List Ideal} (h : Contents ideals table after) {ideal : Ideal}
    {slot : ℕ} (hslot : after.roster.slot? ideal = some slot) : after.count slot ≤ table.size := by
  have hused : table.usedSet ⊆ Finset.range table.size := fun row hrow =>
    Finset.mem_range.mpr (lt_size_of_mem_usedSet hrow)
  have hcard := Finset.card_le_card ((Finset.filter_subset (fun row => ideal ∈ ideals row) _).trans hused)
  rw [Finset.card_range] at hcard
  rw [h.count_eq ideal slot hslot]
  exact_mod_cast hcard

/-- The walk of a loading that succeeds has met a line for every row, and could read those of the used rows. -/
theorem exists_filled_of_ends_load (h : table.Ready) {lines : List String} (hyields : Event.Yields events lines)
    (hlaid : table.arena.capacity ≤ Arena.maxCapacity)
    (hfew : (Rows.referenced (admitted lines bounds) table.usedSet).card ≤ Arena.sentinel)
    (hends : (table.load build bounds events).Ends after summary) :
    lines.length = table.size ∧ (∀ row ∈ table.usedSet, (Relation.ofRow? lines row).isSome) ∧
      Loading.Filled lines bounds { table with liveIdeals := 0 } table.size ⟨after, summary⟩ := by
  obtain ⟨final, hload, rfl⟩ := Run.ends_within.mp (ends_load.mp hends).2
  obtain ⟨walked, _, hwalk, hfinish⟩ := Run.ends_next.mp hload
  obtain ⟨hall, rfl, rfl⟩ := Loading.ends_finish.mp hfinish
  obtain ⟨hread, hfilled⟩ :=
    (Loading.filled_start h.vacant).each hyields (Nat.zero_le _) rfl hlaid hfew hwalk
  have hlength : lines.length = table.size := by
    rw [← hfilled.scanned_eq, hall, size, hfilled.loaded.used_eq, size]
  rw [hlength] at hread hfilled
  exact ⟨hlength, fun row hrow => hread row hrow (Nat.zero_le row) (lt_size_of_mem_usedSet hrow), hfilled⟩

/-- A loading of a ready table that succeeds has met a line for every row, and could read those of the used
rows.  It leaves the ideals above the bounds that count for these lines, says how many rows it met, registered
and found free, and no slot and no count exceeds a word of 32 bits with a sign. -/
theorem contents_of_load (h : table.Ready) (hlaid : table.arena.capacity ≤ 2 ^ 32)
    (hrows : table.size < 2 ^ 31)
    (hfew : (Rows.referenced (readIdeals (Event.texts events) bounds) table.usedSet).card < 2 ^ 31)
    (hends : (table.load build bounds events).Ends after summary) :
    Event.Yields events (Event.texts events) ∧ (Event.texts events).length = table.size ∧
      (∀ row ∈ table.usedSet, ∃ relation, Relation.ofRow? (Event.texts events) row = some relation) ∧
      Contents (readIdeals (Event.texts events) bounds) table after ∧
      (∀ ideal slot, after.roster.slot? ideal = some slot → slot < 2 ^ 31 ∧ after.count slot < 2 ^ 31) ∧
      summary.scanned = table.size ∧ summary.registered = table.liveRows ∧
      summary.free = (freeRows (Event.texts events) table.usedRows).length := by
  have hyields := Event.yields_texts (not_fault_of_ends_load hends)
  have hsentinel : 2 ^ 31 ≤ Arena.sentinel := by decide
  have hcapacity : 2 ^ 32 ≤ Arena.maxCapacity := by decide
  rw [readIdeals_eq_admitted] at hfew ⊢
  obtain ⟨hlength, hread, hloaded, hideals, hscanned, hregistered, hfree⟩ :=
    exists_filled_of_ends_load h hyields (hlaid.trans hcapacity) (hfew.le.trans hsentinel) hends
  have hcontents : Contents (admitted (Event.texts events) bounds) table after :=
    contents_of_loaded h (fun row => (Relation.nodup_rowIdeals _ row).filter _) hloaded rfl hideals
  refine ⟨hyields, hlength, fun row hrow => Option.isSome_iff_exists.mp (hread row hrow), hcontents, ?_,
    hscanned, ?_, hfree⟩
  · intro ideal slot hslot
    have hcount := hcontents.count_le_size hslot
    have hin := Roster.lt_size_of_ideal? ((hcontents.slot_iff ideal slot).mp hslot)
    rw [hcontents.size_eq, hcontents.liveIdeals_eq] at hin
    exact ⟨hin.trans hfew, by omega⟩
  · rw [h.liveRows_eq, ← length_usedRows]
    exact hregistered

/-- Four rows of which the second is not used, so that its line need not be one of a relation. -/
def sampleReady : Incidence :=
  { new 4 100 with used := #[true, false, true, true], liveRows := 3 }

/-- Two files, with an even exponent, ideals that two rows share, and a free relation. -/
def sampleEvents : List Event :=
  [.opened "first", .line "1,1:3,2,2:5", .line "no relation",
    .opened "second", .line "4,1:3,7:", .line "5,0::1,5"]

theorem ready_sampleReady : sampleReady.Ready := by
  obtain ⟨hlists, hunlisted, hwellFormed, hroster, -⟩ := ready_new 4 100
  exact ⟨hlists, hunlisted, hwellFormed, hroster, by decide⟩

/-- The prime two has an even exponent, and the ideal above three is met in two rows. -/
theorem contents_of_load_sample :
    ∃ after, (sampleReady.load .checked .none sampleEvents).Ends after ⟨4, 3, 1⟩ ∧
      (freeRows (Event.texts sampleEvents) sampleReady.usedRows).length = 1 ∧
      Contents (readIdeals (Event.texts sampleEvents) .none) sampleReady after ∧
      after.roster.ideals.toList =
        [Ideal.rational 3, ⟨5, 1⟩, Ideal.rational 7, Ideal.rational 5, ⟨5, 5⟩] ∧
      ∀ slot, after.roster.slot? (Ideal.rational 3) = some slot → after.count slot = 2 := by
  have hok : (sampleReady.load .checked .none sampleEvents).outcome = .ok ⟨4, 3, 1⟩ := by decide +kernel
  obtain ⟨after, hends⟩ := Run.exists_ends hok
  obtain ⟨-, -, -, hcontents, -, -, -, hfree⟩ :=
    contents_of_load ready_sampleReady (by decide) (by decide) (by decide +kernel) hends
  have hideals : (sampleReady.usedRows.flatMap
      (readIdeals (Event.texts sampleEvents) .none)).eraseDups =
        [Ideal.rational 3, ⟨5, 1⟩, Ideal.rational 7, Ideal.rational 5, ⟨5, 5⟩] := by
    decide +kernel
  have hthree : (sampleReady.usedSet.filter fun row =>
      Ideal.rational 3 ∈ readIdeals (Event.texts sampleEvents) .none row).card = 2 := by
    decide +kernel
  refine ⟨after, hends, hfree.symm, hcontents, hcontents.ideals_eq.trans hideals, ?_⟩
  intro slot hslot
  rw [hcontents.count_eq _ slot hslot, hthree]
  rfl

end Incidence

end SieveFilter
