import SieveFilter.Matrix
import SieveFilter.Proofs.Incidence.Loading
import SieveFilter.Proofs.Support.Sinks
import SieveFilter.Proofs.Text.Numerals

/-!
# Writing the matrix

When every ideal of a used row has a column, the matrix is written without a failure: a header, and one line
for each used row in increasing order.  In raw form the lines of the input are written as they are, whatever
the columns.  The reading may stop before the end of the input, but not before the last used row.
-/

namespace SieveFilter.Incidence

open Text (Numeral.decimal Numeral.hex Numeral.hexText spaced)

/-- The line of a row of the matrix, without its line break. -/
def rowWords (row : ℕ) (columns : List ℕ) : List Char :=
  spaced (Numeral.decimal row) (Numeral.decimal columns.length :: columns.map Numeral.hex)

/-- The used rows below a bound, in increasing order. -/
def usedBelow (table : Incidence) (n : ℕ) : List ℕ :=
  (List.range n).filter table.isUsed

theorem usedBelow_size (table : Incidence) : table.usedBelow table.size = table.usedRows := rfl

theorem usedBelow_succ_of_used {table : Incidence} {row : ℕ} (hused : table.isUsed row = true) :
    table.usedBelow (row + 1) = table.usedBelow row ++ [row] := by
  simp [usedBelow, List.range_succ, hused]

theorem usedBelow_succ_of_unused {table : Incidence} {row : ℕ} (hused : table.isUsed row = false) :
    table.usedBelow (row + 1) = table.usedBelow row := by
  simp [usedBelow, List.range_succ, hused]

/-- Where no used row is left, the used rows below a bound are all used rows. -/
theorem usedBelow_eq_usedRows {table : Incidence} {n : ℕ} (hn : n ≤ table.size)
    (hall : table.usedRows.length ≤ (table.usedBelow n).length) :
    table.usedBelow n = table.usedRows := by
  have hbegins : table.usedBelow n <+: table.usedRows := by
    obtain ⟨rest, hrest⟩ := Nat.exists_eq_add_of_le hn
    rw [usedRows, hrest, List.range_add, List.filter_append]
    exact List.prefix_append _ _
  exact hbegins.eq_of_length_le hall

theorem length_usedRows {table : Incidence} : table.usedRows.length = table.usedSet.card := by
  rw [← toFinset_usedRows, List.toFinset_card_of_nodup (nodup_usedRows table)]

/-- A table whose surviving rows can be written: their lines can be read, and their ideals have
columns. -/
structure Writable (table : Incidence) (lines : List String) (column : Ideal → ℕ) : Prop where
  size_eq : table.size = lines.length
  liveRows_eq : table.liveRows = table.usedSet.card
  readable : ∀ row ∈ table.usedSet, ∀ line, lines[row]? = some line →
    ∃ relation, Relation.ofLine line = .ok relation
  columns : ∀ row ∈ table.usedSet, ∀ ideal ∈ Relation.rowIdeals lines row,
    table.roster.columnOf ideal = .ok (some (column ideal))

namespace Emission

/-! ## No warnings -/

theorem quiet_write (emission : Emission) (text : String) : (emission.write text).Quiet := by
  simp only [write]
  split
  · exact Run.quiet_done _ _
  · exact Run.quiet_fail _ _

theorem quiet_writeColumns (roster : Roster) (row : ℕ) (emission : Emission)
    (ideals : List Ideal) : (writeColumns roster row emission ideals).Quiet := by
  induction ideals generalizing emission with
  | nil => exact quiet_write emission _
  | cons ideal rest ih =>
    unfold writeColumns
    split
    · exact Run.quiet_fail _ _
    · exact Run.quiet_fail _ _
    · exact (quiet_write emission _).next fun middle _ _ => ih middle

theorem quiet_takeLine (emission : Emission) (table : Incidence) (raw : Bool) (line : String) :
    (emission.takeLine table raw line).Quiet := by
  unfold takeLine
  refine Run.Quiet.afterAll ?_ ?_
  swap
  · intro notice hnotice
    split at hnotice
    · rw [List.mem_singleton.mp hnotice]
      simp [Notice.level]
    · cases hnotice
  split
  · split
    · exact (quiet_write _ _).next fun _ _ _ => Run.quiet_done _ _
    · unfold writeRow
      split
      · exact Run.quiet_fail _ _
      · exact (quiet_write _ _).next fun _ _ _ =>
          (quiet_writeColumns _ _ _ _).next fun _ _ _ => Run.quiet_done _ _
  · exact Run.quiet_done _ _

theorem quiet_take (table : Incidence) (raw : Bool) (emission : Emission) (event : Event) :
    (emission.take table raw event).Quiet := by
  cases event with
  | opened path => exact (Run.quiet_done _ _).after (by simp [Notice.level])
  | fault cause =>
    simp only [take]
    split
    · exact Run.quiet_done _ _
    · exact Run.quiet_fail _ _
  | line line =>
    simp only [take]
    split
    · exact Run.quiet_done _ _
    · exact quiet_takeLine _ _ _ _

/-! ## One line -/

theorem ends_write {emission : Emission} {text : List Char} (h : emission.sink.Holds text)
    (new : String) :
    ∃ sink, (emission.write new).Ends { emission with sink } () ∧
      sink.Holds (text ++ new.toList) := by
  obtain ⟨sink, hput, hsink⟩ := h.put new
  refine ⟨sink, ?_, hsink⟩
  simp only [write, hput]
  exact ⟨rfl, rfl⟩

/-- The columns of the ideals of a row are written one after the other. -/
theorem ends_writeColumns {roster : Roster} {column : Ideal → ℕ} (row : ℕ) {ideals : List Ideal}
    (hcolumns : ∀ ideal ∈ ideals, roster.columnOf ideal = .ok (some (column ideal)))
    (emission : Emission) {text : List Char} (h : emission.sink.Holds text) :
    ∃ sink, (writeColumns roster row emission ideals).Ends { emission with sink } () ∧
      sink.Holds (text ++ (ideals.flatMap fun ideal => ' ' :: Numeral.hex (column ideal)) ++
        ['\n']) := by
  induction ideals generalizing emission text with
  | nil =>
    obtain ⟨sink, hends, hsink⟩ := ends_write h "\n"
    exact ⟨sink, hends, by simpa using hsink⟩
  | cons ideal rest ih =>
    have htext (text : String) : toString text = text := rfl
    obtain ⟨middle, hfirst, hmiddle⟩ :=
      ends_write h s!" {Numeral.hexText (column ideal)}"
    obtain ⟨sink, hrest, hsink⟩ :=
      ih (fun other hother => hcolumns other (List.mem_cons_of_mem ideal hother))
        { emission with sink := middle } hmiddle
    refine ⟨sink, ?_, ?_⟩
    · simp only [writeColumns, hcolumns ideal List.mem_cons_self]
      exact hfirst.next hrest
    · simpa [Numeral.hexText, htext] using hsink

/-- The line of a used row is written. -/
theorem ends_writeRow {roster : Roster} {column : Ideal → ℕ} {row : ℕ} {line : String}
    {relation : Relation} (hread : Relation.ofLine line = .ok relation)
    (hcolumns : ∀ ideal ∈ Relation.lineIdeals line,
      roster.columnOf ideal = .ok (some (column ideal)))
    (emission : Emission) {text : List Char} (h : emission.sink.Holds text) :
    ∃ sink, (writeRow roster emission row line).Ends
        { emission with
          sink
          rows := emission.rows + 1
          weight := emission.weight + (Relation.lineIdeals line).length } true ∧
      sink.Holds (text ++ (rowWords row ((Relation.lineIdeals line).map column) ++ ['\n'])) := by
  have htext (text : String) : toString text = text := rfl
  obtain ⟨first, hfirst, hholds⟩ :=
    ends_write h s!"{row} {(Relation.lineIdeals line).length}"
  obtain ⟨sink, hends, hsink⟩ :=
    ends_writeColumns row hcolumns { emission with sink := first } hholds
  refine ⟨sink, ?_, ?_⟩
  · simp only [writeRow, hread]
    rw [← Relation.lineIdeals_eq hread]
    exact hfirst.next (hends.next (Run.ends_done.mpr ⟨rfl, rfl⟩))
  · simpa [rowWords, spaced, Numeral.decimal, Nat.toList_repr, htext, List.flatMap_map] using hsink

/-! ## The walk over the lines -/

/-- The line of each used row can be written, as the text and with the entries that are given for it. -/
structure Writes (table : Incidence) (raw : Bool) (lines : List String) (rowText : ℕ → List Char)
    (rowEntries : ℕ → ℕ) : Prop where
  size_eq : table.size = lines.length
  liveRows_eq : table.liveRows = table.usedSet.card
  ends_row : ∀ row ∈ table.usedSet, ∀ line, lines[row]? = some line →
    ∀ (emission : Emission) (text : List Char), emission.sink.Holds text →
      ∃ sink, (if raw then emission.copyRow line
          else emission.writeRow table.roster row line).Ends
            { emission with
              sink
              rows := emission.rows + 1
              weight := emission.weight + rowEntries row } true ∧
        sink.Holds (text ++ rowText row)

/-- The line of a row of the matrix. -/
def rowText (lines : List String) (column : Ideal → ℕ) (row : ℕ) : List Char :=
  rowWords row ((Relation.rowIdeals lines row).map column) ++ ['\n']

/-- The line of a row of the input. -/
def lineText (lines : List String) (row : ℕ) : List Char :=
  (lines.getD row "").toList ++ ['\n']

theorem writes_of_writable {table : Incidence} {lines : List String} {column : Ideal → ℕ}
    (h : Writable table lines column) :
    Writes table false lines (rowText lines column)
      (fun row => (Relation.rowIdeals lines row).length) := by
  refine ⟨h.size_eq, h.liveRows_eq, ?_⟩
  intro row hrow line hline emission text hholds
  have hideals : Relation.rowIdeals lines row = Relation.lineIdeals line := by
    simp [Relation.rowIdeals, hline]
  obtain ⟨relation, hread⟩ := h.readable row hrow line hline
  rw [rowText, hideals, if_neg Bool.false_ne_true]
  exact ends_writeRow hread (hideals ▸ h.columns row hrow) emission hholds

/-- A line is copied as it is. -/
theorem writes_raw (table : Incidence) {lines : List String} (hsize : table.size = lines.length)
    (hrows : table.liveRows = table.usedSet.card) :
    Writes table true lines (lineText lines) (fun _ => 0) := by
  refine ⟨hsize, hrows, ?_⟩
  intro row hrow line hline emission text hholds
  obtain ⟨sink, hends, hsink⟩ := ends_write hholds (line ++ "\n")
  have htext : lineText lines row = (line ++ "\n").toList := by
    simp [lineText, List.getD_eq_getElem?_getD, hline]
  refine ⟨sink, ?_, htext ▸ hsink⟩
  rw [if_pos rfl]
  exact hends.next (Run.ends_done.mpr ⟨rfl, rfl⟩)

/-- An emission on its way: the lines of the used rows below `n` are written. -/
structure Emitted (table : Incidence) (rowText : ℕ → List Char) (rowEntries : ℕ → ℕ)
    (header : List Char) (n : ℕ) (emission : Emission) : Prop where
  met_eq : emission.met = n
  rows_eq : emission.rows = (table.usedBelow n).length
  weight_eq : emission.weight = ((table.usedBelow n).map rowEntries).sum
  holds : emission.sink.Holds (header ++ (table.usedBelow n).flatMap rowText)

variable {table : Incidence} {raw : Bool} {lines : List String} {rowText : ℕ → List Char}
  {rowEntries : ℕ → ℕ} {header : List Char}

/-- The next line is written if its row is used, and passed over otherwise. -/
theorem emitted_takeLine (hwrites : Writes table raw lines rowText rowEntries) {n : ℕ}
    {line : String} (hline : lines[n]? = some line) {emission : Emission}
    (h : Emitted table rowText rowEntries header n emission) :
    ∃ after, (emission.takeLine table raw line).Ends after true ∧
      Emitted table rowText rowEntries header (n + 1) after := by
  obtain ⟨hmet, hrows, hweight, hholds⟩ := h
  unfold takeLine
  simp only [Run.ends_afterAll, hmet]
  by_cases hused : table.isUsed n = true
  · obtain ⟨sink, hends, hsink⟩ := hwrites.ends_row n (mem_usedSet.mpr hused) line hline
      { emission with met := n + 1 } _ hholds
    rw [if_pos hused]
    refine ⟨_, hends, rfl, ?_, ?_, ?_⟩
    · simp [usedBelow_succ_of_used hused, hrows]
    · simp [usedBelow_succ_of_used hused, hweight]
    · simpa [usedBelow_succ_of_used hused] using hsink
  · have hunused := Bool.eq_false_iff.mpr hused
    refine ⟨{ emission with met := n + 1 }, by simp [hunused], rfl, ?_, ?_, ?_⟩
    · rw [usedBelow_succ_of_unused hunused]
      exact hrows
    · rw [usedBelow_succ_of_unused hunused]
      exact hweight
    · rw [usedBelow_succ_of_unused hunused]
      exact hholds

/-- The lines that are left of the input are taken until all used rows are written. -/
theorem emitted_each (hwrites : Writes table raw lines rowText rowEntries) {events : List Event}
    {rest : List String} (hyields : Event.Yields events rest) {n : ℕ} (hn : n ≤ lines.length)
    (hrest : lines.drop n = rest) {emission : Emission}
    (h : Emitted table rowText rowEntries header n emission) :
    ∃ after, (Run.each (take table raw) emission events).Ends after () ∧
      after.rows = table.liveRows ∧ after.weight = (table.usedRows.map rowEntries).sum ∧
      after.sink.Holds (header ++ table.usedRows.flatMap rowText) := by
  have hrows : table.usedRows.length = table.liveRows := by
    rw [length_usedRows, hwrites.liveRows_eq]
  -- Once all used rows are written, nothing is missing from the text.
  have hcomplete : ∀ m ≤ lines.length, ∀ other : Emission,
      Emitted table rowText rowEntries header m other → table.liveRows ≤ other.rows →
        other.rows = table.liveRows ∧ other.weight = (table.usedRows.map rowEntries).sum ∧
          other.sink.Holds (header ++ table.usedRows.flatMap rowText) := by
    intro m hm other hother hall
    have hbelow : table.usedBelow m = table.usedRows :=
      usedBelow_eq_usedRows (hwrites.size_eq ▸ hm) (by rw [hrows, ← hother.rows_eq]; exact hall)
    obtain ⟨-, hrowsOther, hweightOther, hholdsOther⟩ := hother
    rw [hbelow] at hrowsOther hweightOther hholdsOther
    exact ⟨by rw [hrowsOther, hrows], hweightOther, hholdsOther⟩
  induction hyields generalizing n emission with
  | nil =>
    have hend : lines.length ≤ n := List.drop_eq_nil_iff.mp hrest
    have hall : table.liveRows ≤ emission.rows := by
      rw [h.rows_eq, ← hrows, le_antisymm hn hend, ← hwrites.size_eq, usedBelow_size]
    exact ⟨emission, ⟨rfl, rfl⟩, hcomplete n hn emission h hall⟩
  | opened _ ih =>
    obtain ⟨after, hends, hafter⟩ := ih hn hrest h
    exact ⟨after, Run.Ends.each_cons (Run.ends_done.mpr ⟨rfl, rfl⟩) hends, hafter⟩
  | @line text events rest _ ih =>
    obtain ⟨hline, hlater⟩ := next_of_drop hrest
    have hin := (List.getElem?_eq_some_iff.mp hline).1
    by_cases hall : table.liveRows ≤ emission.rows
    · refine ⟨emission, ?_, hcomplete n hn emission h hall⟩
      rw [Run.each_cons]
      simp only [take, if_pos hall]
      exact ⟨rfl, rfl⟩
    · obtain ⟨middle, hmiddle, hemitted⟩ := emitted_takeLine hwrites hline h
      obtain ⟨after, hends, hafter⟩ := ih hin hlater hemitted
      refine ⟨after, Run.Ends.each_cons ?_ hends, hafter⟩
      simp only [take, if_neg hall]
      exact hmiddle

end Emission

/-! ## The whole matrix -/

/-- The header of the matrix, without its line break. -/
def headerWords (rows columns : ℕ) : List Char :=
  spaced (Numeral.decimal rows) [Numeral.decimal columns]

theorem exists_emitHeader (table : Incidence) (columns : ℕ) {sink : Sink} (hsink : sink.Holds []) :
    ∃ after, (table.emitHeader sink columns false).Ends after () ∧
      (table.emitHeader sink columns false).Quiet ∧
      after.Holds (headerWords table.liveRows columns ++ ['\n']) := by
  have htext (text : String) : toString text = text := rfl
  have hstart : (⟨sink, 0, 0, 0⟩ : Emission).sink.Holds [] := hsink
  obtain ⟨after, hends, hafter⟩ :=
    Emission.ends_write hstart s!"{table.liveRows} {columns}\n"
  have hquiet : (table.emitHeader sink columns false).Quiet :=
    Emission.quiet_write ⟨sink, 0, 0, 0⟩ _
  refine ⟨after, hends.within _, hquiet, ?_⟩
  simpa [headerWords, spaced, Numeral.decimal, Nat.toList_repr, htext] using hafter

/-- The lines of the used rows are written in order. -/
theorem exists_emitRows {table : Incidence} {raw : Bool} {lines : List String}
    {rowText : ℕ → List Char} {rowEntries : ℕ → ℕ} {header : List Char} {events : List Event}
    (hwrites : Emission.Writes table raw lines rowText rowEntries)
    (hyields : Event.Yields events lines) {sink : Sink} (hsink : sink.Holds header) :
    ∃ after, (table.emitRows events sink raw).Ends after
        ⟨table.liveRows, (table.usedRows.map rowEntries).sum⟩ ∧
      (table.emitRows events sink raw).Quiet ∧
      after.Holds (header ++ table.usedRows.flatMap rowText) := by
  have hstart : Emission.Emitted table rowText rowEntries header 0 ⟨sink, 0, 0, 0⟩ :=
    ⟨rfl, rfl, rfl, by simpa [usedBelow] using hsink⟩
  obtain ⟨after, hends, hrows, hweight, hholds⟩ :=
    Emission.emitted_each hwrites hyields (Nat.zero_le _) rfl hstart
  refine ⟨after.sink, ?_, ?_, hholds⟩
  · refine Run.ends_within.mpr ⟨after, Run.ends_next.mpr ⟨after, (), hends, ?_⟩, rfl⟩
    rw [if_pos hrows, Run.ends_done]
    exact ⟨rfl, by rw [hrows, hweight]⟩
  · refine Run.Quiet.within (Run.Quiet.next ?_ fun state value _ => ?_) _
    · exact (Run.quiet_each (Emission.quiet_take table raw) _ _).after (by simp [Notice.level])
    · split
      · exact Run.quiet_done _ _
      · exact Run.quiet_fail _ _

end SieveFilter.Incidence
