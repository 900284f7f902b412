import SieveFilter.Proofs.Incidence.Emission
import SieveFilter.Proofs.Roster.Renumbering

/-!
# Reading the matrix and the column map

Readers of the two texts that a reduction writes.  They take the texts apart at line breaks and spaces and
read the numerals between them, and give back what was written.
-/

namespace SieveFilter

open Text (Numeral.value? Numeral.decimal Numeral.hex lines? terminated)
open Relation.Line (fields)

/-- A line of a matrix: the number of its row, the number of entries it announces, and its columns. -/
structure MatrixLine where
  row : ℕ
  weight : ℕ
  columns : List ℕ
  deriving DecidableEq

/-- A matrix that was read: the numbers of rows and columns in its header, and its lines. -/
structure MatrixText where
  rows : ℕ
  columns : ℕ
  body : List MatrixLine
  deriving DecidableEq

namespace MatrixText

/-- Reads a line of a matrix. -/
def readLine? (line : List Char) : Option MatrixLine :=
  match fields ' ' line with
  | row :: weight :: columns => do
    let row ← Numeral.value? 10 row
    let weight ← Numeral.value? 10 weight
    let columns ← columns.mapM (Numeral.value? 16)
    return ⟨row, weight, columns⟩
  | _ => none

/-- Reads a header. -/
def readHeader? (line : List Char) : Option (ℕ × ℕ) :=
  match fields ' ' line with
  | [rows, columns] => do return (← Numeral.value? 10 rows, ← Numeral.value? 10 columns)
  | _ => none

/-- Reads a matrix. -/
def read? (text : List Char) : Option MatrixText :=
  match lines? text with
  | some (header :: body) => do
    let (rows, columns) ← readHeader? header
    let body ← body.mapM readLine?
    return ⟨rows, columns, body⟩
  | _ => none

end MatrixText

namespace ColumnMap

/-- Reads a line of a column map: a column and its ideal. -/
def readLine? (line : List Char) : Option (ℕ × Ideal) :=
  match fields ' ' line with
  | [column, p, r] => do
    return (← Numeral.value? 10 column, ⟨← Numeral.value? 16 p, ← Numeral.value? 16 r⟩)
  | _ => none

/-- Reads a column map. -/
def read? (text : List Char) : Option (List (ℕ × Ideal)) :=
  (lines? text).bind fun lines => lines.mapM readLine?

end ColumnMap

/-- Reading the images of items one after the other gives what reading each of them gives. -/
theorem mapM_map_eq {ι α β : Type} {write : ι → α} {read : α → Option β} {value : ι → β}
    (items : List ι) (hread : ∀ item ∈ items, read (write item) = some (value item)) :
    (items.map write).mapM read = some (items.map value) := by
  induction items with
  | nil => rfl
  | cons item rest ih =>
    have hrest := ih fun other hother => hread other (List.mem_cons_of_mem item hother)
    simp [List.mapM_cons, hread item List.mem_cons_self, hrest]

open Incidence (rowWords headerWords)
open Roster (mapWords)

/-! ## The matrix -/

theorem plain_hex_of_mem {columns : List ℕ} {word : List Char}
    (hword : word ∈ columns.map Numeral.hex) : Text.Plain word := by
  obtain ⟨column, -, rfl⟩ := List.mem_map.mp hword
  exact Text.Numeral.plain_hex column

theorem plain_rowWords {columns : List ℕ} {word : List Char}
    (hword : word ∈ Numeral.decimal columns.length :: columns.map Numeral.hex) :
    Text.Plain word := by
  rcases List.mem_cons.mp hword with rfl | hword
  · exact Text.Numeral.plain_decimal _
  · exact plain_hex_of_mem hword

theorem readLine?_rowWords (row : ℕ) (columns : List ℕ) :
    MatrixText.readLine? (rowWords row columns) = some ⟨row, columns.length, columns⟩ := by
  have hfields : fields ' ' (rowWords row columns) =
      Numeral.decimal row :: Numeral.decimal columns.length :: columns.map Numeral.hex :=
    Text.fields_spaced (Text.Numeral.plain_decimal row) fun _ => plain_rowWords
  have hcolumns : (columns.map Numeral.hex).mapM (Numeral.value? 16) = some (columns.map id) :=
    mapM_map_eq columns fun column _ => Text.Numeral.value?_hex column
  simp [MatrixText.readLine?, hfields, Text.Numeral.value?_decimal, hcolumns]

theorem newline_notMem_rowWords (row : ℕ) (columns : List ℕ) : '\n' ∉ rowWords row columns :=
  Text.newline_notMem_spaced (Text.Numeral.plain_decimal row) fun _ => plain_rowWords

theorem plain_headerWords {columns : ℕ} {word : List Char}
    (hword : word ∈ [Numeral.decimal columns]) : Text.Plain word := by
  rw [List.mem_singleton.mp hword]
  exact Text.Numeral.plain_decimal columns

theorem readHeader?_headerWords (rows columns : ℕ) :
    MatrixText.readHeader? (headerWords rows columns) = some (rows, columns) := by
  have hfields : fields ' ' (headerWords rows columns) =
      [Numeral.decimal rows, Numeral.decimal columns] :=
    Text.fields_spaced (Text.Numeral.plain_decimal rows) fun _ => plain_headerWords
  simp [MatrixText.readHeader?, hfields, Text.Numeral.value?_decimal]

/-- A matrix is read back from its text. -/
theorem read?_matrix (rows columns : ℕ) (body : List (ℕ × List ℕ)) :
    MatrixText.read? (headerWords rows columns ++ ['\n'] ++
        terminated (body.map fun line => rowWords line.1 line.2)) =
      some ⟨rows, columns, body.map fun line => ⟨line.1, line.2.length, line.2⟩⟩ := by
  have htext : headerWords rows columns ++ ['\n'] ++
        terminated (body.map fun line => rowWords line.1 line.2) =
      terminated (headerWords rows columns :: body.map fun line => rowWords line.1 line.2) := by
    simp
  have hlines : ∀ line ∈ headerWords rows columns :: body.map fun line => rowWords line.1 line.2,
      '\n' ∉ line := by
    intro line hline
    rcases List.mem_cons.mp hline with rfl | hline
    · exact Text.newline_notMem_spaced (Text.Numeral.plain_decimal rows) fun _ => plain_headerWords
    · obtain ⟨entry, -, rfl⟩ := List.mem_map.mp hline
      exact newline_notMem_rowWords entry.1 entry.2
  have hbody : (body.map fun line => rowWords line.1 line.2).mapM MatrixText.readLine? =
      some (body.map fun line => ⟨line.1, line.2.length, line.2⟩) :=
    mapM_map_eq body fun line _ => readLine?_rowWords line.1 line.2
  simp only [MatrixText.read?, htext, Text.lines?_terminated hlines, readHeader?_headerWords, hbody]
  rfl

/-! ## The column map -/

theorem plain_mapWords {ideal : Ideal} {word : List Char}
    (hword : word ∈ [Numeral.hex ideal.p, Numeral.hex ideal.r]) : Text.Plain word := by
  rcases List.mem_cons.mp hword with rfl | hword
  · exact Text.Numeral.plain_hex _
  · rw [List.mem_singleton.mp hword]
    exact Text.Numeral.plain_hex _

theorem readLine?_mapWords (column : ℕ) (ideal : Ideal) :
    ColumnMap.readLine? (mapWords column ideal) = some (column, ideal) := by
  have hfields : fields ' ' (mapWords column ideal) =
      [Numeral.decimal column, Numeral.hex ideal.p, Numeral.hex ideal.r] :=
    Text.fields_spaced (Text.Numeral.plain_decimal column) fun _ => plain_mapWords
  simp [ColumnMap.readLine?, hfields, Text.Numeral.value?_decimal, Text.Numeral.value?_hex]

/-- A column map is read back from its text. -/
theorem read?_mapText (roster : Roster) (n : ℕ) :
    ColumnMap.read? (roster.mapText n) =
      some ((roster.liveBelow n).map fun slot => (roster.column slot, roster.idealAt slot)) := by
  have hlines : ∀ line ∈ (roster.liveBelow n).map fun slot =>
      mapWords (roster.column slot) (roster.idealAt slot), '\n' ∉ line := by
    intro line hline
    obtain ⟨slot, -, rfl⟩ := List.mem_map.mp hline
    exact Text.newline_notMem_spaced (Text.Numeral.plain_decimal _) fun _ => plain_mapWords
  rw [ColumnMap.read?, Roster.mapText, Text.lines?_terminated hlines, Option.bind_some]
  exact mapM_map_eq _ fun slot _ => readLine?_mapWords _ _

end SieveFilter
