import SieveFilter.Proofs.Text.Lines
import SieveFilter.Text.Blank
import Mathlib.Data.List.Basic
import Mathlib.Data.List.TakeWhile

/-!
# Blanks at the ends

What is left of a text without the blanks at its end, or at both ends, is the one part of it that is followed,
or surrounded, by blanks only and has none at that end itself.  Blanks do not separate, so a text can be
trimmed before it is taken apart as well as after.
-/

namespace SieveFilter.Text

open Relation.Line (fields)

/-- All characters of the text are blank. -/
def AllBlank (text : List Char) : Prop :=
  ∀ c ∈ text, isBlank c = true

/-- `core` is the text without the blanks at its end. -/
structure EndTrimmed (text core : List Char) : Prop where
  exists_append : ∃ blanks, AllBlank blanks ∧ text = core ++ blanks
  last_not_blank : ∀ c ∈ core.getLast?, isBlank c = false

/-- `core` is the text without the blanks at its ends. -/
structure Trimmed (text core : List Char) : Prop where
  exists_append : ∃ before after, AllBlank before ∧ AllBlank after ∧ text = before ++ core ++ after
  first_not_blank : ∀ c ∈ core.head?, isBlank c = false
  last_not_blank : ∀ c ∈ core.getLast?, isBlank c = false

theorem allBlank_nil : AllBlank [] :=
  List.forall_mem_nil _

theorem AllBlank.append {first second : List Char} (hfirst : AllBlank first)
    (hsecond : AllBlank second) : AllBlank (first ++ second) := by
  intro c hc
  rcases List.mem_append.mp hc with hc | hc
  · exact hfirst c hc
  · exact hsecond c hc

theorem AllBlank.reverse {text : List Char} (h : AllBlank text) : AllBlank text.reverse :=
  fun c hc => h c (List.mem_reverse.mp hc)

/-! ## Trimming -/

/-- What is left from the first character on that is not blank. -/
theorem trimStart_eq_iff {text core : List Char} :
    trimStart text = core ↔
      (∃ blanks, AllBlank blanks ∧ text = blanks ++ core) ∧ ∀ c ∈ core.head?, isBlank c = false := by
  constructor
  · rintro rfl
    refine ⟨⟨text.takeWhile isBlank, fun c hc => List.mem_takeWhile_imp hc, ?_⟩, ?_⟩
    · exact List.takeWhile_append_dropWhile.symm
    · intro c hc
      have hnot := List.head?_dropWhile_not isBlank text
      rw [trimStart] at hc
      rw [Option.mem_def.mp hc] at hnot
      exact hnot
  · rintro ⟨⟨blanks, hblanks, rfl⟩, hcore⟩
    rw [trimStart, List.dropWhile_append_of_pos hblanks]
    cases core with
    | nil => rfl
    | cons c rest => simp [hcore c rfl]

theorem trimEnd_eq_reverse (text : List Char) : trimEnd text = (trimStart text.reverse).reverse :=
  rfl

theorem trimEnd_eq_iff {text core : List Char} : trimEnd text = core ↔ EndTrimmed text core := by
  rw [trimEnd_eq_reverse, List.reverse_eq_iff, trimStart_eq_iff, List.head?_reverse]
  constructor
  · rintro ⟨⟨blanks, hblanks, heq⟩, hlast⟩
    refine ⟨⟨blanks.reverse, hblanks.reverse, ?_⟩, hlast⟩
    rw [← List.reverse_reverse text, heq]
    simp
  · rintro ⟨⟨blanks, hblanks, rfl⟩, hlast⟩
    exact ⟨⟨blanks.reverse, hblanks.reverse, by simp⟩, hlast⟩

theorem trim_eq_iff {text core : List Char} : trim text = core ↔ Trimmed text core := by
  rw [trim, trimEnd_eq_iff]
  constructor
  · rintro ⟨⟨after, hafter, hmiddle⟩, hlast⟩
    obtain ⟨⟨before, hbefore, htext⟩, hfirst⟩ := trimStart_eq_iff.mp (rfl : trimStart text = _)
    refine ⟨⟨before, after, hbefore, hafter, ?_⟩, ?_, hlast⟩
    · rw [List.append_assoc, ← hmiddle, ← htext]
    · intro c hc
      refine hfirst c ?_
      rw [hmiddle, List.head?_append, Option.mem_def.mp hc]
      rfl
  · rintro ⟨⟨before, after, hbefore, hafter, rfl⟩, hfirst, hlast⟩
    cases core with
    | nil =>
      have hblank : trimStart (before ++ [] ++ after) = [] :=
        trimStart_eq_iff.mpr ⟨⟨before ++ after, hbefore.append hafter, by simp⟩, by simp⟩
      exact ⟨⟨[], allBlank_nil, hblank⟩, hlast⟩
    | cons c rest =>
      have hstart : trimStart (before ++ c :: rest ++ after) = c :: rest ++ after :=
        trimStart_eq_iff.mpr ⟨⟨before, hbefore, List.append_assoc _ _ _⟩, hfirst⟩
      exact ⟨⟨after, hafter, hstart⟩, hlast⟩

/-- A text that is blank leaves nothing. -/
theorem trim_eq_nil_iff {text : List Char} : trim text = [] ↔ AllBlank text := by
  rw [trim_eq_iff]
  constructor
  · rintro ⟨⟨before, after, hbefore, hafter, rfl⟩, -, -⟩
    simpa using hbefore.append hafter
  · intro hblank
    exact ⟨⟨text, [], hblank, allBlank_nil, by simp⟩, by simp, by simp⟩

/-- A text without blanks is left as it is. -/
theorem trim_eq_self {text : List Char} (hplain : ∀ c ∈ text, isBlank c = false) :
    trim text = text := by
  rw [trim_eq_iff]
  refine ⟨⟨[], [], allBlank_nil, allBlank_nil, by simp⟩, ?_, ?_⟩
  · exact fun c hc => hplain c (List.mem_of_mem_head? hc)
  · exact fun c hc => hplain c (List.mem_of_getLast? hc)

theorem Trimmed.surrounded {text core before after : List Char} (h : Trimmed text core)
    (hbefore : AllBlank before) (hafter : AllBlank after) : Trimmed (before ++ text ++ after) core := by
  obtain ⟨⟨first, last, hfirst, hlast, rfl⟩, hhead, hend⟩ := h
  exact ⟨⟨before ++ first, last ++ after, hbefore.append hfirst, hlast.append hafter, by simp⟩,
    hhead, hend⟩

/-- Blanks around a text make no difference. -/
theorem trim_surrounded {before after : List Char} (hbefore : AllBlank before)
    (hafter : AllBlank after) (text : List Char) : trim (before ++ text ++ after) = trim text :=
  trim_eq_iff.mpr ((trim_eq_iff.mp rfl).surrounded hbefore hafter)

/-- A first character that is not blank stays the first one. -/
theorem Trimmed.head?_eq {c : Char} {rest core : List Char} (h : Trimmed (c :: rest) core)
    (hc : isBlank c = false) : core.head? = some c := by
  obtain ⟨before, after, hbefore, hafter, htext⟩ := h.exists_append
  have hfirst : ∀ blanks others, AllBlank blanks → c :: rest = blanks ++ others → blanks = [] := by
    intro blanks others hblanks heq
    cases blanks with
    | nil => rfl
    | cons first blanks =>
      rw [← (List.cons.inj heq).1] at hblanks
      exact absurd (hblanks c List.mem_cons_self) (hc ▸ Bool.false_ne_true)
  cases hfirst before (core ++ after) hbefore (by rw [htext, List.append_assoc])
  cases core with
  | nil =>
    cases hfirst after [] hafter (by simpa using htext)
    cases htext
  | cons first core => rw [(List.cons.inj htext).1, List.head?_cons]

/-! ## Trimming and separation -/

section

variable {separator : Char} (hseparator : isBlank separator = false)

include hseparator

theorem AllBlank.notMem {text : List Char} (h : AllBlank text) : separator ∉ text :=
  fun hmem => Bool.false_ne_true (hseparator.symm.trans (h separator hmem))

theorem map_trim_fields_append_left {before : List Char} (hbefore : AllBlank before)
    (text : List Char) :
    (fields separator (before ++ text)).map trim = (fields separator text).map trim := by
  obtain ⟨hne, hplain, htext⟩ := fields_eq_iff.mp (rfl : fields separator text = _)
  generalize fields separator text = parts at hne hplain htext
  cases parts with
  | nil => exact absurd rfl hne
  | cons first rest =>
    obtain ⟨hfirst, hrest⟩ := List.forall_mem_cons.mp hplain
    have hfields : fields separator (before ++ text) = (before ++ first) :: rest := by
      refine fields_eq_iff.mpr ⟨List.cons_ne_nil _ _, List.forall_mem_cons.mpr ⟨?_, hrest⟩, ?_⟩
      · simp [hbefore.notMem hseparator, hfirst]
      · rw [intercalate_append_cons, ← htext]
    have htrim := trim_surrounded hbefore allBlank_nil first
    rw [List.append_nil] at htrim
    rw [hfields, List.map_cons, List.map_cons, htrim]

theorem map_trim_fields_append_right {after : List Char} (hafter : AllBlank after)
    (text : List Char) :
    (fields separator (text ++ after)).map trim = (fields separator text).map trim := by
  obtain ⟨hne, hplain, htext⟩ := fields_eq_iff.mp (rfl : fields separator text = _)
  generalize fields separator text = parts at hne hplain htext
  obtain ⟨init, last, rfl⟩ := (List.eq_nil_or_concat' parts).resolve_left hne
  have hlast := hplain last (by simp)
  have hfields : fields separator (text ++ after) = init ++ [last ++ after] := by
    refine fields_eq_iff.mpr ⟨by simp, ?_, ?_⟩
    · intro part hpart
      rcases List.mem_append.mp hpart with hpart | hpart
      · exact hplain part (List.mem_append_left _ hpart)
      · rw [List.mem_singleton.mp hpart]
        simp [hafter.notMem hseparator, hlast]
    · rw [intercalate_concat_append, ← htext]
  have htrim : trim (last ++ after) = trim last := trim_surrounded allBlank_nil hafter last
  rw [hfields, List.map_append, List.map_append, List.map_singleton, List.map_singleton, htrim]

/-- Trimming a text first leaves its trimmed fields as they are. -/
theorem map_trim_fields_trim (text : List Char) :
    (fields separator (trim text)).map trim = (fields separator text).map trim := by
  obtain ⟨⟨before, after, hbefore, hafter, htext⟩, -, -⟩ := trim_eq_iff.mp (rfl : trim text = _)
  calc (fields separator (trim text)).map trim
      = (fields separator (before ++ trim text)).map trim :=
        (map_trim_fields_append_left hseparator hbefore _).symm
    _ = (fields separator (before ++ trim text ++ after)).map trim :=
        (map_trim_fields_append_right hseparator hafter _).symm
    _ = (fields separator text).map trim := by rw [← htext]

end

end SieveFilter.Text
