import SieveFilter.Stream.Files
import Mathlib.Data.List.Induction
import Mathlib.Data.Nat.Notation

/-!
# Lines among bytes

Bytes are lines, each with a line feed behind it, and what comes after the last line feed.  Splitting gives
these lines, a carriage return at their end dropped, and then the rest if it is not empty; so where a file ends
with a line feed, splitting does not notice whether another file follows.
-/

namespace SieveFilter.Stream

/-- The bytes without a carriage return at their end. -/
def withoutReturn (bytes : List UInt8) : List UInt8 :=
  (dropReturn bytes.reverse).reverse

theorem withoutReturn_concat (bytes : List UInt8) : withoutReturn (bytes ++ [13]) = bytes := by
  simp [withoutReturn, dropReturn]

theorem withoutReturn_eq_self {bytes : List UInt8} (hlast : bytes.getLast? ≠ some 13) :
    withoutReturn bytes = bytes := by
  cases bytes using List.reverseRecOn with
  | nil => rfl
  | append_singleton front b =>
    rw [List.getLast?_concat] at hlast
    rw [withoutReturn, List.reverse_concat, dropReturn, List.reverse_cons, List.reverse_reverse]
    rintro _ ⟨⟩
    exact hlast rfl

/-- The bytes of lines, each with a line feed behind it. -/
def ended (lines : List (List UInt8)) : List UInt8 :=
  lines.flatMap (· ++ [10])

/-- Lines split off before come first. -/
theorem splitFrom_eq (past : List (List UInt8)) (line bytes : List UInt8) :
    splitFrom past line bytes = past.reverse ++ splitFrom [] line bytes := by
  induction bytes generalizing past line with
  | nil =>
    simp only [splitFrom]
    split <;> simp
  | cons b rest ih =>
    simp only [splitFrom]
    split
    · rw [ih, ih [_]]
      simp
    · exact ih past (b :: line)

/-- A line is read up to its line feed. -/
theorem splitFrom_line (read : List UInt8) {line : List UInt8} (hplain : 10 ∉ line)
    (rest : List UInt8) :
    splitFrom [] read (line ++ 10 :: rest) =
      withoutReturn (read.reverse ++ line) :: splitLines rest := by
  induction line generalizing read with
  | nil =>
    rw [List.nil_append, splitFrom, if_pos rfl, splitFrom_eq]
    simp [withoutReturn, splitLines]
  | cons b line ih =>
    obtain ⟨hb, hline⟩ := not_or.mp (List.mem_cons.not.mp hplain)
    rw [List.cons_append, splitFrom, if_neg (Ne.symm hb), ih (b :: read) hline]
    simp

theorem splitFrom_last (read : List UInt8) {line : List UInt8} (hplain : 10 ∉ line)
    (hsome : read.reverse ++ line ≠ []) : splitFrom [] read line = [read.reverse ++ line] := by
  induction line generalizing read with
  | nil =>
    have hread : read ≠ [] := by simpa using hsome
    simp [splitFrom, hread]
  | cons b line ih =>
    obtain ⟨hb, hline⟩ := not_or.mp (List.mem_cons.not.mp hplain)
    rw [splitFrom, if_neg (Ne.symm hb), ih (b :: read) hline (by simp)]
    simp

theorem splitLines_cons {line : List UInt8} (hplain : 10 ∉ line) (rest : List UInt8) :
    splitLines (line ++ 10 :: rest) = withoutReturn line :: splitLines rest :=
  splitFrom_line [] hplain rest

theorem splitLines_last {line : List UInt8} (hplain : 10 ∉ line) (hsome : line ≠ []) :
    splitLines line = [line] :=
  splitFrom_last [] hplain hsome

/-- Lines that are ended come before those of whatever follows. -/
theorem splitLines_ended {lines : List (List UInt8)} (hplain : ∀ line ∈ lines, 10 ∉ line)
    (rest : List UInt8) :
    splitLines (ended lines ++ rest) = lines.map withoutReturn ++ splitLines rest := by
  induction lines with
  | nil => rfl
  | cons line lines ih =>
    obtain ⟨hline, hlines⟩ := List.forall_mem_cons.mp hplain
    have hbytes : ended (line :: lines) ++ rest = line ++ 10 :: (ended lines ++ rest) := by
      simp [ended]
    rw [hbytes, splitLines_cons hline, ih hlines, List.map_cons, List.cons_append]

/-- All bytes are ended lines with a rest behind them. -/
theorem exists_ended (bytes : List UInt8) :
    ∃ lines last, (∀ line ∈ lines, 10 ∉ line) ∧ 10 ∉ last ∧ bytes = ended lines ++ last := by
  induction bytes with
  | nil => exact ⟨[], [], by simp, by simp, rfl⟩
  | cons b rest ih =>
    obtain ⟨lines, last, hlines, hlast, rfl⟩ := ih
    by_cases hb : b = 10
    · exact ⟨[] :: lines, last, by simpa using hlines, hlast, by simp [ended, hb]⟩
    · cases lines with
      | nil => exact ⟨[], b :: last, by simp, by simp [hlast, Ne.symm hb], rfl⟩
      | cons line lines =>
        obtain ⟨hline, hothers⟩ := List.forall_mem_cons.mp hlines
        refine ⟨(b :: line) :: lines, last, ?_, hlast, by simp [ended]⟩
        exact List.forall_mem_cons.mpr ⟨by simp [hline, Ne.symm hb], hothers⟩

/-- The bytes are empty or end with a line feed. -/
def Whole (bytes : List UInt8) : Prop :=
  bytes = [] ∨ bytes.getLast? = some 10

theorem Whole.exists_ended {bytes : List UInt8} (h : Whole bytes) :
    ∃ lines, (∀ line ∈ lines, 10 ∉ line) ∧ bytes = ended lines := by
  obtain ⟨lines, last, hlines, hlast, rfl⟩ := Stream.exists_ended bytes
  cases last using List.reverseRecOn with
  | nil => exact ⟨lines, hlines, List.append_nil _⟩
  | append_singleton front b =>
    rcases h with hnil | hlast?
    · simp at hnil
    · rw [← List.append_assoc, List.getLast?_concat] at hlast?
      rw [Option.some.inj hlast?] at hlast
      exact absurd List.mem_concat_self hlast

/-- Where bytes end with a line feed, they can be split apart from what follows. -/
theorem splitLines_append {first : List UInt8} (hfirst : Whole first) (second : List UInt8) :
    splitLines (first ++ second) = splitLines first ++ splitLines second := by
  obtain ⟨lines, hlines, rfl⟩ := hfirst.exists_ended
  have hfirst := splitLines_ended hlines []
  rw [List.append_nil] at hfirst
  rw [splitLines_ended hlines, hfirst]
  simp [splitLines, splitFrom]

end SieveFilter.Stream
