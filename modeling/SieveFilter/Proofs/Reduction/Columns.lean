import SieveFilter.Proofs.Reduction.Decoding
import SieveFilter.Proofs.Reduction.Filtering

/-!
# Columns of the survivors

Renumbering gives each ideal of the surviving rows a column of its own.  A matrix that has a line for each
used row, with the columns of its ideals in order, describes these rows together with the column map.
-/

namespace SieveFilter

namespace Incidence

/-- The column of an ideal. -/
def columnIn (roster : Roster) (ideal : Ideal) : ℕ :=
  roster.column ((roster.slot? ideal).getD 0)

/-- The column map of a roster: the columns that renumbering gives, each with its ideal. -/
def columnMap (roster : Roster) : List (ℕ × Ideal) :=
  (roster.liveBelow roster.size).map fun slot => (roster.column slot, roster.idealAt slot)

namespace SingletonFree

variable {lines : List String} {table : Incidence}

/-- No slot has a single reference. -/
theorem value_ne_one (h : SingletonFree (Relation.rowIdeals lines) table) (slot : ℕ) :
    table.roster.value slot ≠ 1 := by
  intro hone
  have hcount := h.represents.consistent.count_eq slot
  have hstable := (h.represents.stable_iff (Finset.Subset.refl _)).mpr h.stable
  rw [count, hone] at hcount
  have hreferences : Rows.references table.list table.usedSet slot = 1 := by omega
  have hpos : 0 < Rows.references table.list table.usedSet slot := by omega
  obtain ⟨row, hrow, hmem⟩ := Rows.mem_referenced.mp (Rows.references_pos_iff.mp hpos)
  exact hstable row hrow slot hmem hreferences

/-- Every ideal of a used row has a slot that is referred to. -/
theorem exists_live (h : SingletonFree (Relation.rowIdeals lines) table) {row : ℕ}
    {ideal : Ideal} (hrow : row ∈ table.usedSet) (hideal : ideal ∈ Relation.rowIdeals lines row) :
    ∃ slot ∈ table.roster.liveBelow table.roster.size,
      table.roster.ideal? slot = some ideal ∧ columnIn table.roster ideal = table.roster.column slot := by
  obtain ⟨slot, hmem, hslot⟩ := h.represents.exists_slot hrow hideal
  have hlive : table.roster.value slot ≠ 0 := by
    have hcount := h.represents.consistent.count_eq slot
    have hpos : 0 < Rows.references table.list table.usedSet slot :=
      Rows.references_pos_iff.mpr (Rows.mem_referenced.mpr ⟨row, hrow, hmem⟩)
    rw [count] at hcount
    omega
  refine ⟨slot, Roster.mem_liveBelow.mpr ⟨Roster.lt_size_of_ideal? hslot, hlive⟩, hslot, ?_⟩
  rw [columnIn, (h.represents.wellFormed.slot_iff ideal slot).mpr hslot, Option.getD_some]

/-- A live slot belongs to an ideal of a used row. -/
theorem exists_row (h : SingletonFree (Relation.rowIdeals lines) table) {slot : ℕ}
    (hslot : slot ∈ table.roster.liveBelow table.roster.size) :
    ∃ row ∈ table.usedSet, table.roster.idealAt slot ∈ Relation.rowIdeals lines row ∧
      table.roster.ideal? slot = some (table.roster.idealAt slot) := by
  obtain ⟨-, hlive⟩ := Roster.mem_liveBelow.mp hslot
  have hcount := h.represents.consistent.count_eq slot
  rw [count] at hcount
  have hpos : 0 < Rows.references table.list table.usedSet slot := by omega
  obtain ⟨row, hrow, hmem⟩ := Rows.mem_referenced.mp (Rows.references_pos_iff.mp hpos)
  obtain ⟨ideal, hideal, hfound⟩ := h.represents.exists_ideal hrow hmem
  have hat : table.roster.idealAt slot = ideal := by
    rw [Roster.idealAt, hfound, Option.getD_some]
  rw [hat]
  exact ⟨row, hrow, hideal, hfound⟩

/-- No slot has a negative value, so the live slots are those that renumbering gives columns. -/
theorem column_size (h : SingletonFree (Relation.rowIdeals lines) table) :
    table.roster.column table.roster.size = table.liveIdeals := by
  have hlive : (table.roster.liveBelow table.roster.size).toFinset = table.roster.liveSlots := by
    ext slot
    have hnonneg := h.represents.consistent.count_nonneg slot
    rw [List.mem_toFinset, Roster.mem_liveBelow, Roster.mem_liveSlots]
    constructor
    · rintro ⟨-, hvalue⟩
      exact lt_of_le_of_ne hnonneg hvalue.symm
    · intro hpos
      have hin := Roster.lt_size_of_value_ne_zero hpos.ne'
      exact ⟨h.represents.consistent.values_size ▸ hin, hpos.ne'⟩
  have hnodup : (table.roster.liveBelow table.roster.size).Nodup :=
    List.nodup_range.filter _
  rw [Roster.column, ← List.toFinset_card_of_nodup hnodup, hlive,
    ← h.represents.consistent.liveIdeals_eq]

/-- Behind the column of an ideal of a used row, the column map has that ideal. -/
theorem columnMap_columnIn (h : SingletonFree (Relation.rowIdeals lines) table) {row : ℕ}
    {ideal : Ideal} (hrow : row ∈ table.usedSet) (hideal : ideal ∈ Relation.rowIdeals lines row) :
    (columnMap table.roster)[columnIn table.roster ideal]? =
      some (columnIn table.roster ideal, ideal) := by
  obtain ⟨slot, hlive, hslot, hcolumn⟩ := h.exists_live hrow hideal
  rw [columnMap, List.getElem?_map, hcolumn, Roster.getElem?_liveBelow_column hlive,
    Option.map_some, Roster.idealAt, hslot, Option.getD_some]

/-- Different ideals of used rows have different columns. -/
theorem injOn_columnIn (h : SingletonFree (Relation.rowIdeals lines) table) :
    Set.InjOn (columnIn table.roster)
      (Rows.referenced (Relation.rowIdeals lines) table.usedSet) := by
  intro ideal hideal other hother hsame
  obtain ⟨row, hrow, hin⟩ := Rows.mem_referenced.mp hideal
  obtain ⟨rowOther, hrowOther, hinOther⟩ := Rows.mem_referenced.mp hother
  have hfound := h.columnMap_columnIn hrow hin
  rw [hsame, h.columnMap_columnIn hrowOther hinOther, Option.some.injEq, Prod.mk.injEq] at hfound
  exact hfound.2.symm

/-- Every column is that of an ideal of a used row. -/
theorem exists_columnIn (h : SingletonFree (Relation.rowIdeals lines) table) {column : ℕ}
    (hcolumn : column < table.roster.column table.roster.size) :
    ∃ ideal ∈ Rows.referenced (Relation.rowIdeals lines) table.usedSet,
      columnIn table.roster ideal = column := by
  have hmem : column ∈ (table.roster.liveBelow table.roster.size).map table.roster.column := by
    rw [Roster.map_column_liveBelow]
    exact List.mem_range.mpr hcolumn
  obtain ⟨slot, hslot, rfl⟩ := List.mem_map.mp hmem
  obtain ⟨row, hrow, hideal, hfound⟩ := h.exists_row hslot
  refine ⟨table.roster.idealAt slot, Rows.mem_referenced.mpr ⟨row, hrow, hideal⟩, ?_⟩
  rw [columnIn, (h.represents.wellFormed.slot_iff _ slot).mpr hfound, Option.getD_some]

/-- The columns of a used row are distinct. -/
theorem nodup_columns (h : SingletonFree (Relation.rowIdeals lines) table) {row : ℕ}
    (hrow : row ∈ table.usedSet) :
    ((Relation.rowIdeals lines row).map (columnIn table.roster)).Nodup := by
  apply (Relation.nodup_rowIdeals lines row).map_on
  intro ideal hideal other hother hsame
  exact h.injOn_columnIn (Rows.mem_referenced.mpr ⟨row, hrow, hideal⟩)
    (Rows.mem_referenced.mpr ⟨row, hrow, hother⟩) hsame

/-- The column of an ideal stands in the lines of used rows as often as the table counts the ideal, and
that is at least twice. -/
theorem references_columnIn (h : SingletonFree (Relation.rowIdeals lines) table)
    {ideal : Ideal}
    (hideal : ideal ∈ Rows.referenced (Relation.rowIdeals lines) table.usedSet) :
    let columns row := (Relation.rowIdeals lines row).map (columnIn table.roster)
    (Rows.references columns table.usedSet (columnIn table.roster ideal) : ℤ) =
        table.keyCount ideal ∧
      2 ≤ Rows.references columns table.usedSet (columnIn table.roster ideal) := by
  intro columns
  have hsame : Rows.references columns table.usedSet (columnIn table.roster ideal) =
      Rows.references (Relation.rowIdeals lines) table.usedSet ideal :=
    Rows.references_rename (fun _ _ => rfl) h.injOn_columnIn hideal
  obtain ⟨row, hrow, hin⟩ := Rows.mem_referenced.mp hideal
  have hpos := Rows.references_pos_iff.mpr hideal
  have hone := h.stable row hrow ideal hin
  rw [hsame]
  refine ⟨(h.represents.keyCount_eq ideal).symm, ?_⟩
  omega

end SingletonFree

/-- The line of a row in the matrix of a table. -/
def matrixLine (table : Incidence) (lines : List String) (row : ℕ) : MatrixLine :=
  let columns := (Relation.rowIdeals lines row).map (columnIn table.roster)
  ⟨row, columns.length, columns⟩

/-- The matrix of a table, before renumbering. -/
def matrix (table : Incidence) (lines : List String) : MatrixText where
  rows := table.liveRows
  columns := table.roster.column table.roster.size
  body := table.usedRows.map (table.matrixLine lines)

end Incidence

/-! ## Descriptions -/

/-- A matrix and a column map describe the used rows of a table.  The matrix has a line for each of them in
increasing order; with the ideals that the map has behind its columns, that is the relation on the line of
the row with its exponents reduced.  No column occurs twice in a line, every column occurs in two lines, and
as often as the table counts its ideal. -/
structure MatrixText.Describes (matrix : MatrixText) (map : List (ℕ × Ideal)) (lines : List String)
    (table : Incidence) : Prop where
  rows_eq : matrix.rows = table.liveRows
  columns_eq : matrix.columns = table.liveIdeals
  body_rows : matrix.body.map MatrixLine.row = table.usedRows
  map_columns : map.map Prod.fst = List.range matrix.columns
  ideals_eq : ∀ line ∈ matrix.body, ∃ text relation, lines[line.row]? = some text ∧
    Relation.ofLine text = .ok relation ∧ line.weight = relation.forMatrix.ideals.length ∧
    line.columns.map (fun column => map[column]?.map Prod.snd) =
      relation.forMatrix.ideals.map some
  nodup : ∀ line ∈ matrix.body, line.columns.Nodup
  two_le : ∀ column < matrix.columns, 2 ≤ matrix.body.countP (column ∈ ·.columns)
  count_eq : ∀ column < matrix.columns, ∃ ideal, map[column]? = some (column, ideal) ∧
    ((matrix.body.flatMap MatrixLine.columns).count column : ℤ) = table.keyCount ideal

/-- The lists of a table do not matter for its description. -/
theorem MatrixText.Describes.releaseLists {matrix : MatrixText} {map : List (ℕ × Ideal)}
    {lines : List String} {table : Incidence} (h : matrix.Describes map lines table) :
    matrix.Describes map lines table.releaseLists :=
  ⟨h.rows_eq, h.columns_eq, h.body_rows, h.map_columns, h.ideals_eq, h.nodup, h.two_le, h.count_eq⟩

/-- Every column in a line is one that the header counts. -/
theorem MatrixText.Describes.lt_columns {matrix : MatrixText} {map : List (ℕ × Ideal)}
    {lines : List String} {table : Incidence} (h : matrix.Describes map lines table)
    {line : MatrixLine} (hline : line ∈ matrix.body) {column : ℕ} (hcolumn : column ∈ line.columns) :
    column < matrix.columns := by
  obtain ⟨text, relation, -, -, -, hideals⟩ := h.ideals_eq line hline
  have hlength : map.length = matrix.columns := by
    rw [← List.length_map, h.map_columns, List.length_range]
  have hmem : map[column]?.map Prod.snd ∈ relation.forMatrix.ideals.map some := by
    rw [← hideals]
    exact List.mem_map_of_mem hcolumn
  obtain ⟨ideal, -, hfound⟩ := List.mem_map.mp hmem
  obtain ⟨entry, hentry, -⟩ := Option.map_eq_some_iff.mp hfound.symm
  exact hlength ▸ (List.getElem?_eq_some_iff.mp hentry).1

/-- Where no list has an entry twice, an entry occurs in as many lists as it occurs in them together. -/
theorem count_flatMap_eq_countP {ι κ : Type} [DecidableEq κ] {items : List ι} {entries : ι → List κ}
    (hnodup : ∀ item ∈ items, (entries item).Nodup) (k : κ) :
    (items.flatMap entries).count k = items.countP (k ∈ entries ·) := by
  induction items with
  | nil => rfl
  | cons item rest ih =>
    have hrest := ih fun other hother => hnodup other (List.mem_cons_of_mem item hother)
    have hcount := (hnodup item List.mem_cons_self).count (a := k)
    rw [List.flatMap_cons, List.count_append, hrest, hcount, List.countP_cons, Nat.add_comm]
    simp

namespace Incidence

/-- The entries of the lines of a matrix are those that its rows list. -/
theorem count_flatMap_matrix (table : Incidence) (lines : List String) (column : ℕ) :
    ((table.matrix lines).body.flatMap MatrixLine.columns).count column =
      Rows.references (fun row => (Relation.rowIdeals lines row).map (columnIn table.roster))
        table.usedSet column := by
  rw [matrix, List.flatMap_map, List.count_flatMap, Rows.references, ← toFinset_usedRows,
    List.sum_toFinset _ (nodup_usedRows table)]
  rfl

/-- The matrix of the rows of a table and its column map describe them. -/
theorem SingletonFree.describes {lines : List String} {table : Incidence}
    (h : SingletonFree (Relation.rowIdeals lines) table)
    (hreadable : ∀ row ∈ table.usedSet, ∃ line relation, lines[row]? = some line ∧
      Relation.ofLine line = .ok relation) :
    (table.matrix lines).Describes (columnMap table.roster) lines table := by
  have hnodup : ∀ line ∈ (table.matrix lines).body, line.columns.Nodup := by
    intro line hline
    obtain ⟨row, hrow, rfl⟩ := List.mem_map.mp hline
    rw [← List.mem_toFinset, toFinset_usedRows] at hrow
    exact h.nodup_columns hrow
  refine ⟨rfl, h.column_size, ?_, ?_, ?_, hnodup, ?_, ?_⟩
  · simp [matrix, matrixLine, Function.comp_def]
  · rw [columnMap, List.map_map]
    exact Roster.map_column_liveBelow _ _
  · intro line hline
    obtain ⟨row, hrow, rfl⟩ := List.mem_map.mp hline
    rw [← List.mem_toFinset, toFinset_usedRows] at hrow
    obtain ⟨text, relation, htext, hread⟩ := hreadable row hrow
    have hideals : Relation.rowIdeals lines row = relation.forMatrix.ideals := by
      rw [Relation.rowIdeals, htext, Option.map_some, Option.getD_some, Relation.lineIdeals_eq hread]
    refine ⟨text, relation, htext, hread, ?_, ?_⟩
    · simp only [matrixLine, List.length_map, hideals]
    · simp only [matrixLine, List.map_map, hideals]
      apply List.map_congr_left
      intro ideal hideal
      rw [Function.comp_apply, h.columnMap_columnIn hrow (hideals ▸ hideal), Option.map_some]
  · intro column hcolumn
    obtain ⟨ideal, hideal, rfl⟩ := h.exists_columnIn hcolumn
    rw [← count_flatMap_eq_countP hnodup, count_flatMap_matrix]
    exact (h.references_columnIn hideal).2
  · intro column hcolumn
    obtain ⟨ideal, hideal, rfl⟩ := h.exists_columnIn hcolumn
    obtain ⟨row, hrow, hin⟩ := Rows.mem_referenced.mp hideal
    refine ⟨ideal, h.columnMap_columnIn hrow hin, ?_⟩
    rw [count_flatMap_matrix]
    exact (h.references_columnIn hideal).1

end Incidence

end SieveFilter
