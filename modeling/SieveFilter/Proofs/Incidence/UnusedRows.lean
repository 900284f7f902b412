import SieveFilter.Proofs.Incidence.Emission
import SieveFilter.Proofs.Incidence.Tidiness

/-!
# Rows that are not used

What stands in a stream for a row that is not used has no influence on what is loaded from the stream or
written from it.  Two streams with the same lines for the used rows are read side by side: at a row that is
not used both readings pass over their items, whatever these are, and at a used row they take the same line.
A writing has stopped before anything that comes after the last used row.
-/

namespace SieveFilter

/-- Files that are opened on the way change nothing in a walk over events. -/
theorem Run.each_items {step : σ → Event → Run σ Bool}
    (hopened : ∀ state path, (step state (.opened path)).Ends state true) (state : σ) (events : List Event) :
    (each step state events).SameResult (each step state (Event.items events)) := by
  apply each_filter
  intro state event hskip
  cases event with
  | opened path => exact hopened state path
  | line text => cases hskip
  | fault cause => cases hskip

theorem Run.each_sameResult_of_items {step : σ → Event → Run σ Bool} {state : σ} {events events' : List Event}
    (hopened : ∀ state path, (step state (.opened path)).Ends state true)
    (hitems : (each step state (Event.items events)).SameResult (each step state (Event.items events'))) :
    (each step state events).SameResult (each step state events') :=
  ((each_items hopened state events).trans hitems).trans (each_items hopened state events').symm

/-- The items of a stream without faults are lines. -/
theorem Event.exists_line_of_mem_items {events : List Event} (hnone : ∀ cause, .fault cause ∉ events) :
    ∀ item ∈ items events, ∃ text, item = .line text := by
  intro item hitem
  obtain ⟨hmem, hkeep⟩ := List.mem_filter.mp hitem
  cases item with
  | opened path => cases hkeep
  | line text => exact ⟨text, rfl⟩
  | fault cause => exact absurd hmem (hnone cause)

namespace Incidence

variable {table : Incidence} {items items' events events' : List Event} {bounds : Bounds} {raw : Bool}

/-- Every item of a stream up to the last used row is a line. -/
def Covers (table : Incidence) (items : List Event) : Prop :=
  ∀ row ∈ table.usedSet, ∀ other ≤ row, ∃ text, items[other]? = some (.line text)

/-- A stream covers the used rows if it begins with lines for them and for all rows before them. -/
theorem covers_of_append {rest : List Event} (texts : List String) (hitems : items = texts.map .line ++ rest)
    (hused : ∀ row ∈ table.usedSet, row < texts.length) : Covers table items := by
  intro row hrow other hle
  have hin : other < texts.length := hle.trans_lt (hused row hrow)
  refine ⟨texts[other], ?_⟩
  rw [hitems, List.getElem?_append_left (by simpa using hin), List.getElem?_map, List.getElem?_eq_getElem hin,
    Option.map_some]

/-- Two streams have the same items for the used rows. -/
def Agree (table : Incidence) (items items' : List Event) : Prop :=
  ∀ row ∈ table.usedSet, items[row]? = items'[row]?

instance (table : Incidence) (items items' : List Event) : Decidable (Agree table items items') :=
  inferInstanceAs (Decidable (∀ row ∈ table.usedSet, items[row]? = items'[row]?))

theorem Agree.text_eq (h : Agree table items items') {row : ℕ} (hused : table.isUsed row = true)
    {text text' : String} (hitem : items[row]? = some (.line text))
    (hitem' : items'[row]? = some (.line text')) : text = text' := by
  have heq := h row (mem_usedSet.mpr hused)
  rw [hitem, hitem', Option.some.injEq] at heq
  exact Event.line.inj heq

/-! ## Writing -/

namespace Emission

/-- Once all rows are written, nothing more is done. -/
theorem each_of_written {emission : Emission} (hall : table.liveRows ≤ emission.rows) (events : List Event) :
    (Run.each (take table raw) emission events).SameResult (.done emission ()) := by
  induction events with
  | nil => exact .refl _
  | cons event rest ih =>
    cases event with
    | opened path =>
      have hfirst : (emission.take table raw (.opened path)).Ends emission true := ⟨rfl, rfl⟩
      exact (hfirst.each_cons_eq rest).trans ih
    | fault cause =>
      rw [Run.each_cons, take, if_pos hall]
      exact .refl _
    | line text =>
      rw [Run.each_cons, take, if_pos hall]
      exact .refl _

theorem takeLine_of_unused {emission : Emission} (hunused : table.isUsed emission.met = false)
    (line line' : String) : emission.takeLine table raw line = emission.takeLine table raw line' := by
  simp [takeLine, hunused]

/-! ### Rows met and rows written -/

theorem write_keeps (emission : Emission) (text : String) :
    (emission.write text).state.met = emission.met ∧ (emission.write text).state.rows = emission.rows := by
  obtain ⟨sink, met, rows, weight⟩ := emission
  simp only [write]
  split
  · exact ⟨rfl, rfl⟩
  · exact ⟨rfl, rfl⟩

theorem writeColumns_keeps (roster : Roster) (row : ℕ) (ideals : List Ideal) (emission : Emission) :
    (writeColumns roster row emission ideals).state.met = emission.met ∧
      (writeColumns roster row emission ideals).state.rows = emission.rows := by
  induction ideals generalizing emission with
  | nil => exact write_keeps emission "\n"
  | cons ideal rest ih =>
    unfold writeColumns
    split
    · exact ⟨rfl, rfl⟩
    · exact ⟨rfl, rfl⟩
    · apply Run.next_keeps fun other : Emission => other.met = emission.met ∧ other.rows = emission.rows
      · exact write_keeps emission _
      · intro middle _ hmiddle
        have hrest := ih middle
        exact ⟨hrest.1.trans hmiddle.1, hrest.2.trans hmiddle.2⟩

theorem of_ends_writeRow {roster : Roster} {emission after : Emission} {row : ℕ} {line : String} {more : Bool}
    (hends : (writeRow roster emission row line).Ends after more) :
    after.met = emission.met ∧ after.rows = emission.rows + 1 := by
  unfold writeRow at hends
  split at hends
  next => exact absurd hends Run.not_ends_fail
  next relation _ =>
    obtain ⟨first, _, hfirst, hlater⟩ := Run.ends_next.mp hends
    obtain ⟨second, _, hsecond, hdone⟩ := Run.ends_next.mp hlater
    obtain ⟨rfl, -⟩ := Run.ends_done.mp hdone
    have hwrite := write_keeps emission s!"{row} {relation.forMatrix.ideals.length}"
    have hcolumns := writeColumns_keeps roster row relation.forMatrix.ideals first
    rw [hfirst.1] at hwrite
    rw [hsecond.1] at hcolumns
    exact ⟨hcolumns.1.trans hwrite.1, congrArg (· + 1) (hcolumns.2.trans hwrite.2)⟩

theorem of_ends_copyRow {emission after : Emission} {line : String} {more : Bool}
    (hends : (emission.copyRow line).Ends after more) :
    after.met = emission.met ∧ after.rows = emission.rows + 1 := by
  obtain ⟨first, _, hfirst, hdone⟩ := Run.ends_next.mp hends
  obtain ⟨rfl, -⟩ := Run.ends_done.mp hdone
  have hwrite := write_keeps emission (line ++ "\n")
  rw [hfirst.1] at hwrite
  exact ⟨hwrite.1, congrArg (· + 1) hwrite.2⟩

/-- The rows met are those below `n`, and the rows written are the used ones among them. -/
structure Counts (table : Incidence) (n : ℕ) (emission : Emission) : Prop where
  met_eq : emission.met = n
  rows_eq : emission.rows = (table.usedBelow n).length

theorem Counts.takeLine {n : ℕ} {emission after : Emission} (h : Counts table n emission) {line : String}
    {more : Bool} (hends : (emission.takeLine table raw line).Ends after more) :
    Counts table (n + 1) after := by
  obtain ⟨rfl, hrows⟩ := h
  simp only [Emission.takeLine, Run.ends_afterAll] at hends
  cases hused : table.isUsed emission.met with
  | false =>
    rw [hused] at hends
    obtain ⟨rfl, -⟩ := Run.ends_done.mp hends
    exact ⟨rfl, by rw [usedBelow_succ_of_unused hused]; exact hrows⟩
  | true =>
    rw [hused] at hends
    have hafter : after.met = emission.met + 1 ∧ after.rows = emission.rows + 1 := by
      cases raw with
      | true => exact of_ends_copyRow hends
      | false => exact of_ends_writeRow hends
    refine ⟨hafter.1, ?_⟩
    rw [hafter.2, hrows, usedBelow_succ_of_used hused, List.length_append, List.length_singleton]

/-- As long as not all rows are written, a used row is still to come. -/
theorem Counts.exists_used {n : ℕ} {emission : Emission} (h : Counts table n emission)
    (hrows : table.liveRows = table.usedSet.card) (hmore : emission.rows < table.liveRows) :
    ∃ row ∈ table.usedSet, n ≤ row := by
  by_contra hnone
  have hbelow : table.usedSet ⊆ (table.usedBelow n).toFinset := by
    intro row hrow
    have hlt : row < n := Nat.lt_of_not_le fun hle => hnone ⟨row, hrow, hle⟩
    exact List.mem_toFinset.mpr (List.mem_filter.mpr ⟨List.mem_range.mpr hlt, mem_usedSet.mp hrow⟩)
  have hcard := (Finset.card_le_card hbelow).trans (List.toFinset_card_le _)
  rw [← h.rows_eq, ← hrows] at hcard
  omega

/-- Two streams that cover the used rows and agree at them are written alike from any row on. -/
theorem each_sameResult (hrows : table.liveRows = table.usedSet.card) (hcovers : Covers table items)
    (hcovers' : Covers table items') (hagree : Agree table items items') {n : ℕ}
    {emission : Emission} (h : Counts table n emission) :
    (Run.each (take table raw) emission (items.drop n)).SameResult
      (Run.each (take table raw) emission (items'.drop n)) := by
  refine Run.each_drop_sameResult (Counts table) ?_ h
  intro n emission hcounts
  by_cases hall : table.liveRows ≤ emission.rows
  · exact .inl ((each_of_written hall _).trans (each_of_written hall _).symm)
  obtain ⟨row, hrow, hle⟩ := hcounts.exists_used hrows (Nat.lt_of_not_le hall)
  obtain ⟨text, hitem⟩ := hcovers row hrow n hle
  obtain ⟨text', hitem'⟩ := hcovers' row hrow n hle
  have hstep : emission.takeLine table raw text = emission.takeLine table raw text' := by
    cases hused : table.isUsed n with
    | true => rw [hagree.text_eq hused hitem hitem']
    | false => exact takeLine_of_unused (hcounts.met_eq ▸ hused) text text'
  refine .inr ⟨_, _, hitem, hitem', ?_, ?_⟩
  · rw [take, take, hstep]
    exact .refl _
  · intro middle hends
    rw [take, if_neg hall] at hends
    exact hcounts.takeLine hends

end Emission

theorem emit_sameResult (hrows : table.liveRows = table.usedSet.card)
    (hcovers : Covers table (Event.items events)) (hcovers' : Covers table (Event.items events'))
    (hagree : Agree table (Event.items events) (Event.items events')) (sink : Sink)
    (columns : ℕ) (raw : Bool) :
    (table.emit events sink columns raw).SameResult (table.emit events' sink columns raw) := by
  apply (Run.SameResult.refl (table.emitHeader sink columns raw)).next
  intro sink _ _
  have hstart : Emission.Counts table 0 ⟨sink, 0, 0, 0⟩ := ⟨rfl, rfl⟩
  have hwalk : ((Run.each (Emission.take table raw) ⟨sink, 0, 0, 0⟩ events).after .emitBegins).SameResult
      ((Run.each (Emission.take table raw) ⟨sink, 0, 0, 0⟩ events').after .emitBegins) :=
    Run.each_sameResult_of_items (fun _ _ => ⟨rfl, rfl⟩)
      (Emission.each_sameResult hrows hcovers hcovers' hagree hstart)
  exact (hwalk.next fun emission _ _ => .refl _).within Emission.sink

/-! ## Loading -/

namespace Loading

theorem takeLine_of_unused {loading : Loading} (hunused : loading.table.isUsed loading.summary.scanned = false)
    (line line' : String) : loading.takeLine bounds line = loading.takeLine bounds line' := by
  simp [takeLine, hunused]

theorem scanned_of_ends_register {loading after : Loading} {row : ℕ} {line : String} {more : Bool}
    (hends : (loading.register bounds row line).Ends after more) :
    after.summary.scanned = loading.summary.scanned := by
  cases hread : Relation.ofLine line with
  | error cause =>
    simp only [register, hread] at hends
    exact absurd hends Run.not_ends_fail
  | ok relation =>
    have hstate := state_register loading bounds row hread
    rw [hends.1] at hstate
    exact hstate.2

/-- The rows scanned are those below `n`, and the used rows are those of the table. -/
structure Scans (table : Incidence) (n : ℕ) (loading : Loading) : Prop where
  scanned_eq : loading.summary.scanned = n
  used_eq : loading.table.used = table.used

theorem Scans.takeLine {n : ℕ} {loading after : Loading} (h : Scans table n loading) {line : String}
    {more : Bool} (hends : (loading.takeLine bounds line).Ends after more) : Scans table (n + 1) after := by
  obtain ⟨rfl, hused⟩ := h
  constructor
  · simp only [Loading.takeLine] at hends
    split at hends
    next => exact absurd hends Run.not_ends_fail
    next =>
      rw [Run.ends_afterAll] at hends
      split at hends
      next => exact scanned_of_ends_register hends
      next =>
        obtain ⟨rfl, -⟩ := Run.ends_done.mp hends
        rfl
  · have hkept := take_keeps (·.used = table.used)
      (fun middle row ideals hmiddle => (sameRows_register middle row ideals).used_eq.trans hmiddle) bounds
      loading (.line line) hused
    exact hends.1 ▸ hkept

/-- Streams of lines only, of one length, that agree at the used rows, are loaded alike from any row on. -/
theorem each_sameResult (hlines : ∀ item ∈ items, ∃ text, item = .line text)
    (hlines' : ∀ item ∈ items', ∃ text, item = .line text) (hlength : items.length = items'.length)
    (hagree : Agree table items items') {n : ℕ} {loading : Loading} (h : Scans table n loading) :
    (Run.each (take bounds) loading (items.drop n)).SameResult
      (Run.each (take bounds) loading (items'.drop n)) := by
  refine Run.each_drop_sameResult (Scans table) ?_ h
  intro n loading hscans
  by_cases hend : items.length ≤ n
  · rw [List.drop_eq_nil_of_le hend, List.drop_eq_nil_of_le (hlength ▸ hend)]
    exact .inl (.refl _)
  have hin : n < items.length := Nat.lt_of_not_le hend
  have hin' : n < items'.length := hlength ▸ hin
  obtain ⟨text, htext⟩ := hlines _ (List.getElem_mem hin)
  obtain ⟨text', htext'⟩ := hlines' _ (List.getElem_mem hin')
  have hitem : items[n]? = some (.line text) := by rw [List.getElem?_eq_getElem hin, htext]
  have hitem' : items'[n]? = some (.line text') := by rw [List.getElem?_eq_getElem hin', htext']
  have hstep : loading.takeLine bounds text = loading.takeLine bounds text' := by
    cases hused : table.isUsed n with
    | true => rw [hagree.text_eq hused hitem hitem']
    | false =>
      have hunused : loading.table.isUsed loading.summary.scanned = false := by
        rw [hscans.scanned_eq, isUsed, hscans.used_eq]
        exact hused
      exact takeLine_of_unused hunused text text'
  refine .inr ⟨_, _, hitem, hitem', ?_, fun middle hends => hscans.takeLine hends⟩
  rw [take, take, hstep]
  exact .refl _

end Loading

theorem fill_sameResult (hlength : (Event.items events).length = (Event.items events').length)
    (hnone : ∀ cause, .fault cause ∉ events) (hnone' : ∀ cause, .fault cause ∉ events')
    (hagree : Agree table (Event.items events) (Event.items events')) (bounds : Bounds) :
    (table.fill bounds events).SameResult (table.fill bounds events') := by
  have hstart : Loading.Scans table 0 ⟨{ table with liveIdeals := 0 }, ⟨0, 0, 0⟩⟩ := ⟨rfl, rfl⟩
  have hwalk : (Run.each (Loading.take bounds) ⟨{ table with liveIdeals := 0 }, ⟨0, 0, 0⟩⟩ events).SameResult
      (Run.each (Loading.take bounds) ⟨{ table with liveIdeals := 0 }, ⟨0, 0, 0⟩⟩ events') :=
    Run.each_sameResult_of_items (fun _ _ => ⟨rfl, rfl⟩)
      (Loading.each_sameResult (Event.exists_line_of_mem_items hnone) (Event.exists_line_of_mem_items hnone')
        hlength hagree hstart)
  exact (hwalk.next fun loading _ _ => .refl loading.finish).within Loading.table

theorem load_sameResult (hlength : (Event.items events).length = (Event.items events').length)
    (hnone : ∀ cause, .fault cause ∉ events) (hnone' : ∀ cause, .fault cause ∉ events')
    (hagree : Agree table (Event.items events) (Event.items events')) (build : Build) (bounds : Bounds) :
    (table.load build bounds events).SameResult (table.load build bounds events') := by
  rw [load, load]
  split
  · exact .refl _
  · exact fill_sameResult hlength hnone hnone' hagree bounds

/-- What stands in a stream for a row that is not used changes neither what is written from it, if there is a
line for each row up to the last used one, nor what is loaded from it, if the number of items is the same and
none is a fault. -/
theorem unused_rows_do_not_matter (hagree : Agree table (Event.items events) (Event.items events')) :
    (table.liveRows = table.usedSet.card → Covers table (Event.items events) →
      Covers table (Event.items events') → ∀ sink columns raw,
        (table.emit events sink columns raw).SameResult (table.emit events' sink columns raw)) ∧
    ((Event.items events).length = (Event.items events').length → (∀ cause, .fault cause ∉ events) →
      (∀ cause, .fault cause ∉ events') → ∀ build bounds,
        (table.load build bounds events).SameResult (table.load build bounds events')) :=
  ⟨fun hrows hcovers hcovers' => emit_sameResult hrows hcovers hcovers' hagree,
    fun hlength hnone hnone' => load_sameResult hlength hnone hnone' hagree⟩

/-- Three rows of which the second is not used. -/
def sampleUnused : Incidence :=
  { new 3 100 with used := #[true, false, true], liveRows := 2 }

/-- The only ideal has the first column. -/
def sampleColumn : Incidence :=
  { sampleUnused with
    roster := { (Roster.empty.insert (Ideal.rational 3)).2 with values := #[1], phase := .renumbered } }

/-- A line that cannot be read stands for the row that is not used, and a fault comes after the last row. -/
def sampleBroken : List Event :=
  [.opened "first", .line "1,1:3:", .line "no relation", .line "4,1:3:", .fault .notText]

/-- The same lines for the used rows, in two files, with another line for the other row and with lines to
spare. -/
def sampleSpare : List Event :=
  [.line "1,1:3:", .opened "second", .line "6,1:5:5", .line "4,1:3:", .line "more"]

/-- The two rows are written from either stream.  Without the fault and the spare line, both streams are
loaded into the same table. -/
theorem unused_rows_do_not_matter_sample :
    (∃ sink, (sampleColumn.emit sampleBroken (.empty none) 1 false).Ends sink ⟨2, 2⟩ ∧
      (sampleColumn.emit sampleSpare (.empty none) 1 false).Ends sink ⟨2, 2⟩) ∧
    ∃ after, (sampleUnused.load .checked .none (sampleBroken.take 4)).Ends after ⟨3, 2, 0⟩ ∧
      (sampleUnused.load .checked .none (sampleSpare.take 4)).Ends after ⟨3, 2, 0⟩ := by
  constructor
  · have hok : (sampleColumn.emit sampleBroken (.empty none) 1 false).outcome = .ok ⟨2, 2⟩ := by
      decide +kernel
    obtain ⟨sink, hends⟩ := Run.exists_ends hok
    have hagree : Agree sampleColumn (Event.items sampleBroken) (Event.items sampleSpare) := by decide
    have hsame := (unused_rows_do_not_matter hagree).1 (by decide)
      (covers_of_append ["1,1:3:", "no relation", "4,1:3:"] rfl (by decide))
      (covers_of_append ["1,1:3:", "6,1:5:5", "4,1:3:", "more"] rfl (by decide)) (.empty none) 1 false
    exact ⟨sink, hends, hsame.ends_iff.mp hends⟩
  · have hok : (sampleUnused.load .checked .none (sampleBroken.take 4)).outcome = .ok ⟨3, 2, 0⟩ := by
      decide +kernel
    obtain ⟨after, hends⟩ := Run.exists_ends hok
    have hagree : Agree sampleUnused (Event.items (sampleBroken.take 4))
        (Event.items (sampleSpare.take 4)) := by
      decide
    have hsame := (unused_rows_do_not_matter hagree).2 rfl (by simp [sampleBroken])
      (by simp [sampleSpare]) .checked .none
    exact ⟨after, hends, hsame.ends_iff.mp hends⟩

end Incidence

end SieveFilter
