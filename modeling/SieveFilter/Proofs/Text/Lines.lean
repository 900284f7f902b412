import SieveFilter.Relation.Line
import Mathlib.Data.Nat.Notation

/-!
# Words and lines

Texts are taken apart at separators, and their parts make them up again.  Words that do not contain the
separator between them are found again, and so are lines that end with a line break.
-/

namespace SieveFilter.Text

open Relation.Line (fields splitFirst?)

theorem fields_eq_splitOn (separator : Char) (text : List Char) :
    fields separator text = text.splitOn separator := by
  induction text with
  | nil => rfl
  | cons c rest ih =>
    rw [List.splitOn_cons_eq_if_modifyHead, ← ih]
    cases hsame : c == separator with
    | true => simp [fields, hsame]
    | false =>
      cases hrest : fields separator rest with
      | nil => exact absurd (ih.symm.trans hrest) (List.splitOn_ne_nil separator rest)
      | cons part parts => simp [fields, hsame, hrest]

theorem fields_of_notMem {separator : Char} {part : List Char} (hplain : separator ∉ part) :
    fields separator part = [part] := by
  rw [fields_eq_splitOn, List.splitOn_eq_singleton hplain]

/-- The text up to the first separator is the first field. -/
theorem fields_append {separator : Char} {part : List Char} (hplain : separator ∉ part)
    (rest : List Char) :
    fields separator (part ++ separator :: rest) = part :: fields separator rest := by
  rw [fields_eq_splitOn, fields_eq_splitOn, List.splitOn_append_cons_self_of_not_mem hplain]

/-- Fields do not contain the separator. -/
theorem notMem_of_mem_fields {separator : Char} {text part : List Char}
    (hpart : part ∈ fields separator text) : separator ∉ part := by
  induction text generalizing part with
  | nil => simp_all [fields]
  | cons c rest ih =>
    rw [fields] at hpart
    split at hpart
    next =>
      rcases List.mem_cons.mp hpart with rfl | hpart
      · exact List.not_mem_nil
      · exact ih hpart
    next hdiffers _ =>
      rw [List.mem_singleton.mp hpart, List.mem_singleton]
      exact Ne.symm (by simpa using hdiffers)
    next first parts hdiffers hfields =>
      rcases List.mem_cons.mp hpart with rfl | hpart
      · have hfirst := ih (hfields ▸ List.mem_cons_self)
        simp only [beq_eq_false_iff_ne] at hdiffers
        simp [hdiffers.symm, hfirst]
      · exact ih (hfields ▸ List.mem_cons_of_mem first hpart)

/-- The fields of a text are the parts without separators that make it up with separators between them. -/
theorem fields_eq_iff {separator : Char} {text : List Char} {parts : List (List Char)} :
    fields separator text = parts ↔
      parts ≠ [] ∧ (∀ part ∈ parts, separator ∉ part) ∧ text = [separator].intercalate parts := by
  constructor
  · rintro rfl
    refine ⟨?_, fun part hpart => notMem_of_mem_fields hpart, ?_⟩
    · rw [fields_eq_splitOn]
      exact List.splitOn_ne_nil separator text
    · rw [fields_eq_splitOn, List.intercalate_splitOn]
  · rintro ⟨hne, hplain, rfl⟩
    rw [fields_eq_splitOn, List.splitOn_intercalate separator hplain hne]

theorem intercalate_append_cons (separator before first : List Char) (rest : List (List Char)) :
    separator.intercalate ((before ++ first) :: rest) =
      before ++ separator.intercalate (first :: rest) := by
  cases rest with
  | nil => simp
  | cons next rest => simp [List.intercalate_cons_cons]

theorem intercalate_concat_append (separator last after : List Char) (parts : List (List Char)) :
    separator.intercalate (parts ++ [last ++ after]) =
      separator.intercalate (parts ++ [last]) ++ after := by
  induction parts with
  | nil => simp
  | cons first parts ih =>
    cases parts with
    | nil => simp [List.intercalate_cons_cons]
    | cons next parts =>
      simp only [List.cons_append, List.intercalate_cons_cons] at ih ⊢
      rw [ih, ← List.append_assoc]

theorem mem_intercalate {c separator : Char} {parts : List (List Char)}
    (hc : c ∈ [separator].intercalate parts) : c = separator ∨ ∃ part ∈ parts, c ∈ part := by
  induction parts with
  | nil => cases hc
  | cons first rest ih =>
    cases rest with
    | nil => exact .inr ⟨first, List.mem_cons_self, by simpa using hc⟩
    | cons next rest =>
      rw [List.intercalate_cons_cons, List.append_assoc, List.mem_append] at hc
      rcases hc with hc | hc
      · exact .inr ⟨first, List.mem_cons_self, hc⟩
      · rcases List.mem_cons.mp hc with rfl | hc
        · exact .inl rfl
        · rcases ih hc with rfl | ⟨part, hpart, hc⟩
          · exact .inl rfl
          · exact .inr ⟨part, List.mem_cons_of_mem first hpart, hc⟩

/-- A text is split at the first separator. -/
theorem splitFirst?_eq_some_iff {separator : Char} {text left right : List Char} :
    splitFirst? separator text = some (left, right) ↔
      text = left ++ separator :: right ∧ separator ∉ left := by
  induction text generalizing left with
  | nil => simp [splitFirst?]
  | cons c rest ih =>
    rw [splitFirst?]
    by_cases hc : c = separator
    · subst hc
      simp only [beq_self_eq_true, if_true, Option.some.injEq, Prod.mk.injEq]
      constructor
      · rintro ⟨rfl, rfl⟩
        exact ⟨rfl, List.not_mem_nil⟩
      · rintro ⟨heq, hplain⟩
        cases left with
        | nil => exact ⟨rfl, (List.cons.inj heq).2⟩
        | cons first left =>
          exact absurd ((List.cons.inj heq).1 ▸ List.mem_cons_self) hplain
    · simp only [beq_iff_eq, hc, if_false, Option.map_eq_some_iff, Prod.exists, Prod.mk.injEq]
      constructor
      · rintro ⟨before, after, hsplit, rfl, rfl⟩
        obtain ⟨rfl, hplain⟩ := ih.mp hsplit
        exact ⟨rfl, by simp [Ne.symm hc, hplain]⟩
      · rintro ⟨heq, hplain⟩
        cases left with
        | nil => exact absurd (List.cons.inj heq).1 hc
        | cons first left =>
          obtain ⟨rfl, hrest⟩ := List.cons.inj heq
          have hleft : separator ∉ left := fun h => hplain (List.mem_cons_of_mem c h)
          exact ⟨left, right, ih.mpr ⟨hrest, hleft⟩, rfl, rfl⟩

/-- The text has no character that separates words or lines. -/
def Plain (word : List Char) : Prop :=
  ' ' ∉ word ∧ '\n' ∉ word

/-- The text of words with a space between them. -/
def spaced (first : List Char) (rest : List (List Char)) : List Char :=
  first ++ rest.flatMap fun word => ' ' :: word

/-- Words are found again. -/
theorem fields_spaced {first : List Char} {rest : List (List Char)}
    (hfirst : Plain first) (hrest : ∀ word ∈ rest, Plain word) :
    fields ' ' (spaced first rest) = first :: rest := by
  induction rest generalizing first with
  | nil => simpa [spaced] using fields_of_notMem hfirst.1
  | cons word rest ih =>
    have hword := hrest word List.mem_cons_self
    have htail := ih hword fun other hother => hrest other (List.mem_cons_of_mem word hother)
    simp only [spaced, List.flatMap_cons, List.cons_append] at htail ⊢
    rw [fields_append hfirst.1, htail]

/-- Words with spaces between them have no line break. -/
theorem newline_notMem_spaced {first : List Char} {rest : List (List Char)}
    (hfirst : Plain first) (hrest : ∀ word ∈ rest, Plain word) : '\n' ∉ spaced first rest := by
  intro hmem
  rcases List.mem_append.mp hmem with hmem | hmem
  · exact hfirst.2 hmem
  · obtain ⟨word, hword, hin⟩ := List.mem_flatMap.mp hmem
    rcases List.mem_cons.mp hin with heq | hin
    · exact absurd heq (by decide)
    · exact (hrest word hword).2 hin

/-- The text of lines, each with a line break after it. -/
def terminated (lines : List (List Char)) : List Char :=
  lines.flatMap fun line => line ++ ['\n']

@[simp] theorem terminated_nil : terminated [] = [] := rfl

@[simp] theorem terminated_cons (line : List Char) (rest : List (List Char)) :
    terminated (line :: rest) = line ++ '\n' :: terminated rest := by
  simp [terminated]

theorem terminated_append (first second : List (List Char)) :
    terminated (first ++ second) = terminated first ++ terminated second :=
  List.flatMap_append

/-- The lines of a text whose last line ends with a line break. -/
def lines? (text : List Char) : Option (List (List Char)) :=
  let parts := fields '\n' text
  if parts.getLast? = some [] then some parts.dropLast else none

/-- Lines are found again. -/
theorem lines?_terminated {lines : List (List Char)} (hplain : ∀ line ∈ lines, '\n' ∉ line) :
    lines? (terminated lines) = some lines := by
  have hfields : fields '\n' (terminated lines) = lines ++ [[]] := by
    induction lines with
    | nil => rfl
    | cons line rest ih =>
      rw [terminated_cons, fields_append (hplain line List.mem_cons_self),
        ih fun other hother => hplain other (List.mem_cons_of_mem line hother)]
      rfl
  simp [lines?, hfields]

end SieveFilter.Text
