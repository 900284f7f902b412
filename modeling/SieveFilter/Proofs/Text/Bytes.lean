import Mathlib.Data.List.Induction
import Mathlib.Data.Nat.Notation

/-!
# Bytes of texts

A text is stored as the bytes of its characters.  Characters of ASCII are one byte each, and no byte of another
character is in ASCII; so an ASCII character is found, or is the last one, exactly where its byte is.
-/

namespace SieveFilter.Text

/-- The bytes that a text is stored as. -/
def bytes (text : List Char) : List UInt8 :=
  text.flatMap String.utf8EncodeChar

@[simp] theorem bytes_nil : bytes [] = [] := rfl

@[simp] theorem bytes_append (first second : List Char) :
    bytes (first ++ second) = bytes first ++ bytes second :=
  List.flatMap_append

theorem bytes_singleton (c : Char) : bytes [c] = String.utf8EncodeChar c :=
  List.flatMap_singleton _ _

theorem bytes_ne_nil {text : List Char} (hsome : text ≠ []) : bytes text ≠ [] := by
  cases text with
  | nil => exact absurd rfl hsome
  | cons c rest => simp [bytes, String.utf8EncodeChar_ne_nil]

theorem toList_toUTF8 (text : List Char) : (String.ofList text).toUTF8.data.toList = bytes text := by
  rw [String.toUTF8_eq_toByteArray, String.toByteArray_ofList, List.utf8Encode, List.data_toByteArray]
  rfl

/-- The bytes of a text are read back. -/
theorem fromUTF8?_toUTF8 (text : String) : String.fromUTF8? text.toUTF8 = some text := by
  rw [String.toUTF8_eq_toByteArray, String.fromUTF8?, dif_pos text.isValidUTF8]
  rfl

theorem fromUTF8?_bytes (text : List Char) :
    String.fromUTF8? ⟨(bytes text).toArray⟩ = some (String.ofList text) := by
  have hbytes : (⟨(bytes text).toArray⟩ : ByteArray) = (String.ofList text).toUTF8 := by
    ext1
    rw [← toList_toUTF8, Array.toArray_toList]
  rw [hbytes, fromUTF8?_toUTF8]

/-- A character of ASCII is one byte, and the bytes of another one are all outside ASCII. -/
theorem utf8EncodeChar_cases (c : Char) :
    (c.toNat < 128 ∧ String.utf8EncodeChar c = [UInt8.ofNat c.toNat]) ∨
      (128 ≤ c.toNat ∧ String.utf8EncodeChar c ≠ [] ∧
        ∀ b ∈ String.utf8EncodeChar c, 128 ≤ b.toNat) := by
  have hval : c.val.toNat = c.toNat := rfl
  simp only [String.utf8EncodeChar, hval]
  split
  next hsmall => exact .inl ⟨by omega, rfl⟩
  next hlarge =>
    refine .inr ⟨by omega, ?_⟩
    split
    · simp
      omega
    · split
      · simp
        omega
      · simp
        omega

/-- The byte of an ASCII character belongs to no other character. -/
theorem mem_utf8EncodeChar_iff {c other : Char} (hc : c.toNat < 128) :
    UInt8.ofNat c.toNat ∈ String.utf8EncodeChar other ↔ other = c := by
  have hbyte : (UInt8.ofNat c.toNat).toNat = c.toNat := by
    rw [UInt8.toNat_ofNat']
    omega
  constructor
  · intro hmem
    rcases utf8EncodeChar_cases other with ⟨hsmall, hone⟩ | ⟨-, -, hlarge⟩
    · rw [hone, List.mem_singleton] at hmem
      have hsame := congrArg UInt8.toNat hmem
      rw [hbyte, UInt8.toNat_ofNat'] at hsame
      apply Char.ext
      apply UInt32.toNat_inj.mp
      change other.toNat = c.toNat
      omega
    · have hnot := hlarge _ hmem
      omega
  · rintro rfl
    rcases utf8EncodeChar_cases other with ⟨-, hone⟩ | ⟨hlarge, -⟩
    · rw [hone]
      exact List.mem_singleton_self _
    · omega

/-- A text has an ASCII character if its bytes have that of the character. -/
theorem mem_bytes_iff {c : Char} (hc : c.toNat < 128) {text : List Char} :
    UInt8.ofNat c.toNat ∈ bytes text ↔ c ∈ text := by
  rw [bytes, List.mem_flatMap]
  simp only [mem_utf8EncodeChar_iff hc, exists_eq_right]

/-- A text ends with an ASCII character if its bytes end with that of the character. -/
theorem getLast?_bytes_iff {c : Char} (hc : c.toNat < 128) {text : List Char} :
    (bytes text).getLast? = some (UInt8.ofNat c.toNat) ↔ text.getLast? = some c := by
  induction text using List.reverseRecOn with
  | nil => simp
  | append_singleton front last =>
    rw [bytes_append, bytes_singleton, List.getLast?_concat, Option.some.injEq, ← mem_utf8EncodeChar_iff hc]
    rcases utf8EncodeChar_cases last with ⟨-, hone⟩ | ⟨-, hsome, hlarge⟩
    · rw [hone, List.getLast?_concat, List.mem_singleton, Option.some.injEq]
      exact eq_comm
    · rw [List.getLast?_append, Option.or_of_isSome (by simp [hsome])]
      constructor
      · exact List.mem_of_getLast?
      · intro hmem
        have hnot := hlarge _ hmem
        rw [UInt8.toNat_ofNat'] at hnot
        omega

end SieveFilter.Text
