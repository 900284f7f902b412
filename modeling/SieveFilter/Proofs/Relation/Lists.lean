import SieveFilter.Proofs.Relation.Readers
import SieveFilter.Proofs.Text.Integers

/-!
# Lists of primes

A field lists numbers when it is blank, or when it holds hexadecimal numerals with commas between them, any of
them with blanks around it.  The reader of lists accepts these fields and no others.
-/

namespace SieveFilter.Relation

open Text

/-- The field holds the numbers, with commas between them. -/
def Lists (field : List Char) (numbers : List ℕ) : Prop :=
  AllBlank field ∧ numbers = [] ∨
    ∃ tokens, tokens ≠ [] ∧ (∀ token ∈ tokens, ',' ∉ token) ∧ field = [','].intercalate tokens ∧
      List.Forall₂ (Numeral.Word 16) tokens numbers

/-! ## Reading -/

theorem readEntry_eq_ok_iff {token : List Char} {n : ℕ} :
    Line.readEntry token = .ok n ↔ Numeral.Word 16 token n := by
  rw [← Numeral.readNat_trim_eq_ok_iff (by decide) (by decide), Line.readEntry]
  cases Numeral.readNat 16 Numeral.maxWord (trim token) with
  | error cause => simp
  | ok m => simp

theorem lists_iff {field : List Char} {numbers : List ℕ} :
    Lists field numbers ↔
      AllBlank field ∧ numbers = [] ∨ List.Forall₂ (Numeral.Word 16) (Line.fields ',' field) numbers := by
  refine or_congr_right ?_
  constructor
  · rintro ⟨tokens, hne, hplain, hfield, hentries⟩
    rwa [fields_eq_iff.mpr ⟨hne, hplain, hfield⟩]
  · intro hentries
    obtain ⟨hne, hplain, hfield⟩ := fields_eq_iff.mp (rfl : Line.fields ',' field = _)
    exact ⟨_, hne, hplain, hfield, hentries⟩

theorem lists_iff_of_allBlank {field : List Char} (hblank : AllBlank field) {numbers : List ℕ} :
    Lists field numbers ↔ numbers = [] := by
  rw [lists_iff, fields_of_notMem (hblank.notMem (by decide))]
  constructor
  · rintro (⟨-, hnumbers⟩ | hentries)
    · exact hnumbers
    · obtain ⟨n, _, hword, -, -⟩ := List.forall₂_cons_left_iff.mp hentries
      exact absurd hword (Numeral.not_word_of_allBlank hblank n)
  · exact fun hnumbers => .inl ⟨hblank, hnumbers⟩

/-- Blanks around a field may be removed before it is taken apart. -/
theorem forall₂_word_trim (field : List Char) (numbers : List ℕ) :
    List.Forall₂ (Numeral.Word 16) (Line.fields ',' (trim field)) numbers ↔
      List.Forall₂ (Numeral.Word 16) (Line.fields ',' field) numbers := by
  have hcore (tokens : List (List Char)) :
      List.Forall₂ (Numeral.Word 16) tokens numbers ↔
        List.Forall₂ (fun core n => Numeral.Unsigned 16 core n ∧ n < 2 ^ 64) (tokens.map trim)
          numbers := by
    simp only [List.forall₂_map_left_iff, ← Numeral.word_iff]
  rw [hcore, hcore, map_trim_fields_trim (by decide)]

theorem readEntries_eq_ok_iff {field : List Char} {numbers : List ℕ} :
    Line.readEntries field = .ok numbers ↔ Lists field numbers := by
  unfold Line.readEntries
  split
  next hnil =>
    rw [lists_iff_of_allBlank (trim_eq_nil_iff.mp hnil), Except.ok.injEq, eq_comm]
  next hne =>
    have hblank : ¬ AllBlank field := fun h => hne (trim_eq_nil_iff.mpr h)
    simp only [Line.mapM_eq_ok_iff, readEntry_eq_ok_iff, forall₂_word_trim, lists_iff, hblank,
      false_and, false_or]

/-! ## Written lists -/

/-- The numbers in hexadecimal, with commas between them. -/
def listText (numbers : List ℕ) : List Char :=
  [','].intercalate (numbers.map Numeral.hex)

/-- A list that was written holds its numbers. -/
theorem lists_listText {numbers : List ℕ} (hnumbers : ∀ n ∈ numbers, n < 2 ^ 64) :
    Lists (listText numbers) numbers := by
  cases numbers with
  | nil => exact .inl ⟨allBlank_nil, rfl⟩
  | cons first rest =>
    refine .inr ⟨(first :: rest).map Numeral.hex, List.cons_ne_nil _ _, ?_, rfl, ?_⟩
    · simp only [List.forall_mem_map]
      intro n _
      have hplain : ∀ c ∈ Numeral.hex n, c ≠ ',' :=
        Numeral.forall_mem_hex (by decide) n
      exact fun hcomma => hplain _ hcomma rfl
    · rw [List.forall₂_map_left_iff, List.forall₂_same]
      exact fun n hn => Numeral.word_hex (hnumbers n hn)

/-- A list that was written consists of digits and commas. -/
theorem forall_mem_listText {property : Char → Prop} (hcomma : property ',')
    (hdigits : ∀ d < 16, property (Nat.digitChar d)) (numbers : List ℕ) :
    ∀ c ∈ listText numbers, property c := by
  intro c hc
  rcases mem_intercalate hc with rfl | ⟨part, hpart, hc⟩
  · exact hcomma
  · obtain ⟨n, -, rfl⟩ := List.mem_map.mp hpart
    exact Numeral.forall_mem_hex hdigits n c hc

end SieveFilter.Relation
