import SieveFilter.Proofs.Text.Integers
import SieveFilter.Toml.Reader
import Mathlib.Data.List.TakeDrop
import Mathlib.Data.List.TakeWhile

/-!
# Keys and literals of TOML

A key or a literal is a text that is taken in whole by its reader wherever something stands behind it that ends
words.  The keys without quotes, the integers, the truth values and the strings on one line are of this kind.
-/

namespace SieveFilter.Toml

open Text.Numeral (digit? digitsFrom)

/-- What ends a word stands in front: a blank, an equals sign, a comment, a line end or nothing at all. -/
def Stops (rest : List Char) : Prop :=
  ∀ c ∈ rest.head?, c ∈ [' ', '\t', '=', '#', '\n', '\r']

/-- The text is a way to write the name as a key. -/
def IsKey (key : List Char) (name : String) : Prop :=
  ∀ rest, Stops rest → readKeyPart (key ++ rest) = some (name, rest)

/-- The text is a way to write the value, which holds no other values. -/
def IsLiteral (literal : List Char) (value : Value) : Prop :=
  ∀ rest, Stops rest → readScalar (literal ++ rest) = some (value, rest)

theorem stops_nil : Stops [] := by
  simp [Stops]

theorem Stops.not_of_head {rest : List Char} {property : Char → Bool} (h : Stops rest)
    (hstops : ([' ', '\t', '=', '#', '\n', '\r'].all fun c => !property c) = true) :
    ∀ c ∈ rest.head?, property c = false :=
  fun c hc => (Bool.not_eq_true' _).mp (List.all_eq_true.mp hstops c (h c hc))

/-- Characters of a kind are split off up to the first one of another kind. -/
theorem span_append {property : Char → Bool} {word rest : List Char} (hword : ∀ c ∈ word, property c = true)
    (hrest : ∀ c ∈ rest.head?, property c = false) : (word ++ rest).span property = (word, rest) := by
  rw [List.span_eq_takeWhile_dropWhile, List.takeWhile_append_of_pos hword, List.dropWhile_append_of_pos hword]
  cases rest with
  | nil => simp
  | cons c rest => simp [hrest c rfl]

/-- The text begins with a quote or a character of a kind. -/
def Begins (kind : Char → Bool) (text : List Char) : Prop :=
  ∃ c rest, text = c :: rest ∧ (c = '"' ∨ c = '\'' ∨ kind c = true)

/-- A text that begins so begins with no other character. -/
theorem Begins.head?_notMem {kind : Char → Bool} {text others : List Char} (h : Begins kind text)
    (hothers : (others.all fun c => c != '"' && c != '\'' && !kind c) = true) (rest : List Char) :
    ∀ c ∈ (text ++ rest).head?, c ∉ others := by
  obtain ⟨first, text, rfl, hfirst⟩ := h
  intro c hc hmem
  cases Option.mem_some_iff.mp hc
  have hother := List.all_eq_true.mp hothers first hmem
  simp only [Bool.and_eq_true, bne_iff_ne, Bool.not_eq_true'] at hother
  obtain ⟨⟨hquote, htick⟩, hplain⟩ := hother
  rcases hfirst with rfl | rfl | hkind
  · exact hquote rfl
  · exact htick rfl
  · rw [hkind] at hplain
    cases hplain

/-! ## Keys without quotes -/

theorem isKey_of_isKeyChar {name : String} (hsome : name ≠ "")
    (hchars : name.toList.all isKeyChar = true) : IsKey name.toList name := by
  intro rest hrest
  have hplain := List.all_eq_true.mp hchars
  have hspan := span_append hplain (hrest.not_of_head (by decide))
  cases hname : name.toList with
  | nil => exact absurd (String.toList_eq_nil_iff.mp hname) hsome
  | cons c key =>
    rw [hname] at hplain hspan
    have hc := hplain c List.mem_cons_self
    rw [List.cons_append] at hspan ⊢
    rw [readKeyPart]
    · rw [hspan]
      show some (String.ofList (c :: key), rest) = _
      rw [← hname, String.ofList_toList]
    · rintro _ ⟨⟩
      exact absurd hc (by decide)
    · rintro _ ⟨⟩
      exact absurd hc (by decide)

/-- A key begins with a quote or a character of keys. -/
theorem IsKey.begins {key : List Char} {name : String} (h : IsKey key name) : Begins isKeyChar key := by
  have hread := h [] stops_nil
  rw [List.append_nil] at hread
  cases key with
  | nil => cases hread
  | cons c rest =>
    refine ⟨c, rest, rfl, ?_⟩
    by_contra hnot
    obtain ⟨hquote, htick, hplain⟩ : c ≠ '"' ∧ c ≠ '\'' ∧ isKeyChar c = false := by simpa using hnot
    have hspan : (c :: rest).span isKeyChar = ([], c :: rest) :=
      span_append (List.forall_mem_nil _) (by simpa using hplain)
    rw [readKeyPart, hspan] at hread
    · cases hread
    · rintro _ ⟨⟩
      exact hquote rfl
    · rintro _ ⟨⟩
      exact htick rfl

/-! ## Words -/

/-- A text is no day or time unless a hyphen or a colon stands behind digits. -/
theorem readMoment_eq_none {text : List Char}
    (hnone : ∀ digits c rest, text = digits ++ c :: rest → digits ≠ [] →
      (digitsFrom 10 0 digits).isSome = true → c ≠ '-' ∧ c ≠ ':') : readMoment text = none := by
  have hday : readDay text = none := by
    rw [readDay.eq_def]
    split
    next y₁ y₂ y₃ y₄ _ _ _ _ rest =>
      cases hyear : digitsFrom 10 0 [y₁, y₂, y₃, y₄] with
      | none => rfl
      | some year => exact absurd rfl (hnone [y₁, y₂, y₃, y₄] '-' _ rfl (by simp) (by simp [hyear])).1
    next => rfl
  have htime : readTime text = none := by
    rw [readTime.eq_def]
    split
    next h₁ h₂ _ _ _ _ rest =>
      have hcount : isCount 0 23 [h₁, h₂] = false := by
        rw [isCount]
        cases hhour : digitsFrom 10 0 [h₁, h₂] with
        | none => rfl
        | some hour => exact absurd rfl (hnone [h₁, h₂] ':' _ rfl (by simp) (by simp [hhour])).2
      rw [hcount]
      rfl
    next => rfl
  rw [readMoment, hday, htime]
  rfl

/-- What holds of all digits holds of the characters of a numeral. -/
theorem forall_mem_of_digitsFrom {radix value n : ℕ} (hradix : radix ≤ 16) {property : Char → Prop}
    (hdigits : ∀ d < 16, property (Nat.digitChar d) ∧ property (Nat.digitChar d).toUpper)
    {text : List Char} (hread : digitsFrom radix value text = some n) : ∀ c ∈ text, property c := by
  induction text generalizing value with
  | nil => exact List.forall_mem_nil _
  | cons c rest ih =>
    obtain ⟨d, hd, hrest⟩ := Option.bind_eq_some_iff.mp hread
    obtain ⟨hlt, hc⟩ := (Text.Numeral.digit?_eq_some_iff hradix).mp hd
    refine List.forall_mem_cons.mpr ⟨?_, ih hrest⟩
    rcases hc with rfl | rfl
    · exact (hdigits d (by omega)).1
    · exact (hdigits d (by omega)).2

/-- A character that is neither in words nor a quote begins no literal. -/
theorem readScalar_eq_none {c : Char} (hc : isWordChar c = false) (hquote : c ≠ '"') (htick : c ≠ '\'')
    (rest : List Char) : readScalar (c :: rest) = none := by
  have hmoment : readMoment (c :: rest) = none := by
    refine readMoment_eq_none fun digits d tail heq hsome hread => ?_
    obtain ⟨n, hread⟩ := Option.isSome_iff_exists.mp hread
    have hdigits : ∀ d ∈ digits, isWordChar d = true :=
      forall_mem_of_digitsFrom (by decide) (by decide) hread
    cases digits with
    | nil => exact absurd rfl hsome
    | cons first digits =>
      rw [(List.cons.inj heq).1, hdigits first List.mem_cons_self] at hc
      cases hc
  have hspan : (c :: rest).span isWordChar = ([], c :: rest) :=
    span_append (List.forall_mem_nil _) (by simpa using hc)
  rw [readScalar]
  · rw [hmoment]
    simp only [hspan]
    rfl
  · rintro _ ⟨⟩
    exact hquote rfl
  · rintro _ ⟨⟩
    exact htick rfl

/-- A literal begins with a quote or a character of words. -/
theorem IsLiteral.begins {literal : List Char} {value : Value} (h : IsLiteral literal value) :
    Begins isWordChar literal := by
  have hread := h [] stops_nil
  rw [List.append_nil] at hread
  cases literal with
  | nil => cases hread
  | cons c rest =>
    refine ⟨c, rest, rfl, ?_⟩
    by_contra hnot
    obtain ⟨hquote, htick, hplain⟩ : c ≠ '"' ∧ c ≠ '\'' ∧ isWordChar c = false := by simpa using hnot
    rw [readScalar_eq_none hplain hquote htick] at hread
    cases hread

/-- The characters of a word are not those behind the digits of a day or a time; only in front of them a sign
may stand. -/
structure IsWord (word : List Char) : Prop where
  nonempty : word ≠ []
  isWordChar : ∀ c ∈ word, isWordChar c = true
  no_colon : ':' ∉ word
  no_hyphen : '-' ∉ word.tail

/-- Behind the digits in front of a word there is neither a hyphen nor a colon. -/
theorem IsWord.readMoment_eq {word rest : List Char} (h : IsWord word) (hrest : Stops rest) :
    readMoment (word ++ rest) = none := by
  refine readMoment_eq_none fun digits c tail heq hsome hread => ?_
  obtain ⟨n, hread⟩ := Option.isSome_iff_exists.mp hread
  have hdigits : ∀ d ∈ digits, d ∉ [' ', '\t', '=', '#', '\n', '\r'] :=
    forall_mem_of_digitsFrom (le_of_lt (by decide)) (by decide) hread
  -- a character behind the word is no digit, so the digits end within the word
  obtain ⟨more, rfl, htail⟩ | ⟨more, hword, htail⟩ := List.append_eq_append_iff.mp heq
  · cases more with
    | nil =>
      have hc := hrest c (by rw [htail]; rfl)
      constructor <;> rintro rfl <;> simp at hc
    | cons d more =>
      exact absurd (hrest d (by rw [htail]; rfl)) (hdigits d (by simp))
  · cases more with
    | nil =>
      have hc := hrest c (by rw [← List.nil_append rest, ← htail]; rfl)
      constructor <;> rintro rfl <;> simp at hc
    | cons d more =>
      obtain ⟨rfl, -⟩ := List.cons.inj htail
      have hmem : c ∈ word.tail := by
        cases digits with
        | nil => exact absurd rfl hsome
        | cons first digits => simp [hword]
      refine ⟨?_, ?_⟩
      · rintro rfl
        exact h.no_hyphen hmem
      · rintro rfl
        exact h.no_colon (List.mem_of_mem_tail hmem)

/-- What is written as a word is read as a word. -/
theorem IsWord.readScalar_eq {word rest : List Char} (h : IsWord word) (hrest : Stops rest) :
    readScalar (word ++ rest) = (Value.ofWord? word).map (·, rest) := by
  have hspan := span_append h.isWordChar (hrest.not_of_head (by decide))
  have hmoment := h.readMoment_eq hrest
  have hchars := h.isWordChar
  cases hword : word with
  | nil => exact absurd hword h.nonempty
  | cons c tail =>
    have hc := hchars c (by rw [hword]; exact List.mem_cons_self)
    rw [hword, List.cons_append] at hspan hmoment
    rw [List.cons_append, readScalar]
    · rw [hmoment]
      simp only [hspan]
    · rintro _ ⟨⟩
      exact absurd hc (by decide)
    · rintro _ ⟨⟩
      exact absurd hc (by decide)

theorem mem_of_ungroup {inside : Bool} {text digits : List Char} (h : ungroup inside text = some digits) :
    ∀ c ∈ text, c = '_' ∨ c ∈ digits := by
  induction text generalizing inside digits with
  | nil => exact List.forall_mem_nil _
  | cons c rest ih =>
    rw [List.forall_mem_cons]
    rw [ungroup.eq_def] at h
    split at h
    next heq => cases heq
    next heq =>
      obtain ⟨rfl, rfl⟩ := List.cons.inj heq
      split at h
      · exact ⟨.inl rfl, ih h⟩
      · cases h
    next heq =>
      obtain ⟨rfl, rfl⟩ := List.cons.inj heq
      obtain ⟨others, hothers, rfl⟩ := Option.map_eq_some_iff.mp h
      refine ⟨.inr List.mem_cons_self, fun d hd => ?_⟩
      exact (ih hothers d hd).imp_right (List.mem_cons_of_mem _)

/-- What holds of all digits and of the underscore holds of the characters of grouped digits. -/
theorem forall_mem_of_grouped? {radix : ℕ} (hradix : radix ≤ 16) {property : Char → Prop}
    (hdigits : ∀ d < 16, property (Nat.digitChar d) ∧ property (Nat.digitChar d).toUpper)
    (hunderscore : property '_') {text : List Char} {value : ℕ × ℕ}
    (hread : grouped? radix text = some value) : text ≠ [] ∧ ∀ c ∈ text, property c := by
  obtain ⟨digits, hungroup, hrest⟩ := Option.bind_eq_some_iff.mp hread
  obtain ⟨n, hn, -⟩ := Option.bind_eq_some_iff.mp hrest
  refine ⟨?_, fun c hc => ?_⟩
  · rintro rfl
    cases hungroup
  · rcases mem_of_ungroup hungroup c hc with rfl | hmem
    · exact hunderscore
    · exact forall_mem_of_digitsFrom hradix hdigits hn c hmem

/-- The characters of an integer behind its sign or the marks of its radix. -/
def isIntegerChar (c : Char) : Bool :=
  isWordChar c && c != ':' && c != '-'

theorem isIntegerChar_of_grouped? {radix : ℕ} (hradix : radix ≤ 16) {text : List Char} {value : ℕ × ℕ}
    (hread : grouped? radix text = some value) : text ≠ [] ∧ ∀ c ∈ text, isIntegerChar c = true :=
  forall_mem_of_grouped? hradix (by decide) (by decide) hread

theorem isWord_cons {c : Char} {rest : List Char} (hc : isWordChar c = true) (hcolon : c ≠ ':')
    (hrest : ∀ d ∈ rest, isIntegerChar d = true) : IsWord (c :: rest) := by
  have hplain : ∀ d ∈ rest, isWordChar d = true ∧ d ≠ ':' ∧ d ≠ '-' := by
    simpa [isIntegerChar, and_assoc] using hrest
  refine ⟨List.cons_ne_nil _ _, ?_, ?_, ?_⟩
  · exact List.forall_mem_cons.mpr ⟨hc, fun d hd => (hplain d hd).1⟩
  · intro hmem
    rcases List.mem_cons.mp hmem with rfl | hmem
    · exact hcolon rfl
    · exact (hplain _ hmem).2.1 rfl
  · exact fun hmem => (hplain _ hmem).2.2 rfl

theorem isIntegerChar_of_whole? {digits : List Char} {n : ℕ} (hread : whole? digits = some n) :
    digits ≠ [] ∧ ∀ c ∈ digits, isIntegerChar c = true := by
  obtain ⟨value, hgrouped, -⟩ := Option.bind_eq_some_iff.mp hread
  exact isIntegerChar_of_grouped? (by decide) hgrouped

theorem isWord_of_integer? {word : List Char} {n : ℤ} (hword : integer? word = some n) : IsWord word := by
  have hmarked {mark : Char} {radix : ℕ} {digits : List Char} {bounded : ℕ × ℕ → Option ℤ}
      (hradix : radix ≤ 16) (hmark : isIntegerChar mark = true)
      (hread : (grouped? radix digits).bind bounded = some n) :
      IsWord ('0' :: mark :: digits) := by
    obtain ⟨value, hgrouped, -⟩ := Option.bind_eq_some_iff.mp hread
    exact isWord_cons (by decide) (by decide)
      (List.forall_mem_cons.mpr ⟨hmark, (isIntegerChar_of_grouped? hradix hgrouped).2⟩)
  rw [integer?.eq_def] at hword
  dsimp only at hword
  split at hword
  next => exact hmarked (by decide) (by decide) hword
  next => exact hmarked (by decide) (by decide) hword
  next => exact hmarked (by decide) (by decide) hword
  next =>
    obtain ⟨m, hread, -⟩ := Option.bind_eq_some_iff.mp hword
    rw [Decimal.splitSign.eq_def] at hread
    split at hread
    · exact isWord_cons (by decide) (by decide) (isIntegerChar_of_whole? hread).2
    · exact isWord_cons (by decide) (by decide) (isIntegerChar_of_whole? hread).2
    · obtain ⟨hsome, hplain⟩ := isIntegerChar_of_whole? hread
      cases hcons : word with
      | nil => exact absurd hcons hsome
      | cons c rest =>
        rw [hcons] at hplain
        obtain ⟨hc, hrest⟩ := List.forall_mem_cons.mp hplain
        simp only [isIntegerChar, Bool.and_eq_true, bne_iff_ne] at hc
        exact isWord_cons hc.1.1 hc.1.2 hrest

theorem isLiteral_integer {word : List Char} {n : ℤ} (hword : integer? word = some n) :
    IsLiteral word (.integer n) := by
  intro rest hrest
  have htrue : word ≠ ['t', 'r', 'u', 'e'] := by
    rintro rfl
    cases hword
  have hfalse : word ≠ ['f', 'a', 'l', 's', 'e'] := by
    rintro rfl
    cases hword
  rw [(isWord_of_integer? hword).readScalar_eq hrest, Value.ofWord?, if_neg htrue, if_neg hfalse, hword]
  rfl

theorem isLiteral_boolean (b : Bool) : IsLiteral (toString b).toList (.boolean b) := by
  intro rest hrest
  have hword : IsWord (toString b).toList := by
    cases b <;> exact isWord_cons (by decide) (by decide) (List.all_eq_true.mp (by decide))
  rw [hword.readScalar_eq hrest]
  cases b <;> rfl

/-! ## Strings -/

/-- What stands between double quotes for a text: its characters, or escapes in their place. -/
inductive Escaped : List Char → List Char → Prop
  | nil : Escaped [] []
  | plain {c : Char} {body text : List Char} (hplain : isPlain c = true) (hquote : c ≠ '"')
      (hslash : c ≠ '\\') (hrest : Escaped body text) : Escaped (c :: body) (c :: text)
  | escape {mark body text : List Char} {c : Char}
      (hescape : ∀ rest, readEscape (mark ++ rest) = some (c, rest)) (hrest : Escaped body text) :
      Escaped ('\\' :: mark ++ body) (c :: text)

/-- A text without control characters, quotes and backslashes stands for itself. -/
theorem escaped_self {text : List Char}
    (hplain : (text.all fun c => isPlain c && c != '"' && c != '\\') = true) : Escaped text text := by
  induction text with
  | nil => exact .nil
  | cons c rest ih =>
    simp only [List.all_cons, Bool.and_eq_true, bne_iff_ne] at hplain
    obtain ⟨⟨⟨hc, hquote⟩, hslash⟩, hrest⟩ := hplain
    exact .plain hc hquote hslash (ih (by simpa using hrest))

theorem Escaped.readString_eq {body text : List Char} (h : Escaped body text) {fuel : ℕ}
    (hfuel : body.length < fuel) (past rest : List Char) :
    readString fuel past (body ++ '"' :: rest) = some (String.ofList (past.reverse ++ text), rest) := by
  induction h generalizing fuel past with
  | nil =>
    obtain ⟨fuel, rfl⟩ := Nat.exists_eq_add_of_lt hfuel
    simp [readString]
  | @plain c body text hplain hquote hslash _ ih =>
    obtain ⟨fuel, rfl⟩ := Nat.exists_eq_add_of_lt hfuel
    have hrest := @ih (body.length + 1 + fuel) (by omega) (c :: past)
    rw [List.reverse_cons, List.append_assoc, List.singleton_append] at hrest
    rw [List.cons_append, List.length_cons, readString, if_neg hquote, if_neg hslash, if_pos hplain, hrest]
  | @escape mark body text c hescape _ ih =>
    obtain ⟨fuel, rfl⟩ := Nat.exists_eq_add_of_lt hfuel
    have hrest := @ih ((mark ++ body).length + 1 + fuel) (by simp; omega) (c :: past)
    rw [List.reverse_cons, List.append_assoc, List.singleton_append] at hrest
    rw [List.cons_append, List.cons_append, List.length_cons, readString, if_neg (by decide), if_pos rfl,
      List.append_assoc, hescape]
    exact hrest

theorem length_lt_succ_append (body rest : List Char) : body.length < (body ++ rest).length + 1 := by
  rw [List.length_append]
  omega

/-- Two quotes that end an empty string are not the first two of three. -/
theorem take_ne_quotes {quote : Char} {body rest : List Char} (hbody : ∀ c ∈ body.head?, c ≠ quote)
    (hrest : ∀ c ∈ rest.head?, c ≠ quote) : (body ++ quote :: rest).take 2 ≠ [quote, quote] := by
  cases body with
  | nil =>
    cases rest with
    | nil => simp
    | cons c rest => simpa using hrest c rfl
  | cons c body =>
    intro heq
    exact hbody c rfl (List.cons.inj heq).1

theorem Escaped.head?_ne {body text : List Char} (h : Escaped body text) : ∀ c ∈ body.head?, c ≠ '"' := by
  cases h with
  | nil => simp
  | plain _ hquote _ => simpa using hquote
  | escape => simp

theorem Stops.head?_ne {rest : List Char} (h : Stops rest) {quote : Char}
    (hquote : quote = '"' ∨ quote = '\'') : ∀ c ∈ rest.head?, c ≠ quote := by
  rintro c hc rfl
  have hmem := h c hc
  rcases hquote with rfl | rfl <;> simp at hmem

theorem isLiteral_escaped {body text : List Char} (h : Escaped body text) :
    IsLiteral ('"' :: body ++ ['"']) (.text (String.ofList text)) := by
  intro rest hrest
  have htake := take_ne_quotes h.head?_ne (hrest.head?_ne (.inl rfl))
  have hread := h.readString_eq (length_lt_succ_append body ('"' :: rest)) [] rest
  simp only [List.cons_append, List.append_assoc, List.nil_append, readScalar, readQuoted, if_neg htake,
    if_true, hread]
  rfl

/-- What stands between single quotes for itself. -/
def Verbatim (text : List Char) : Prop :=
  ∀ c ∈ text, (isPlain c && c != '\'') = true

instance (text : List Char) : Decidable (Verbatim text) :=
  List.decidableBAll _ text

theorem Verbatim.readLiteral_eq {text : List Char} (h : Verbatim text) (rest : List Char) :
    readLiteral (text ++ '\'' :: rest) = some (String.ofList text, rest) := by
  rw [readLiteral, span_append h (by simp)]
  rfl

theorem isLiteral_verbatim {text : List Char} (h : Verbatim text) :
    IsLiteral ('\'' :: text ++ ['\'']) (.text (String.ofList text)) := by
  intro rest hrest
  have hhead : ∀ c ∈ text.head?, c ≠ '\'' := by
    rintro c hc rfl
    have hplain := h '\'' (List.mem_of_mem_head? hc)
    simp at hplain
  have htake := take_ne_quotes hhead (hrest.head?_ne (.inr rfl))
  have hquote : ¬ '\'' = '"' := by decide
  simp only [List.cons_append, List.append_assoc, List.nil_append, readScalar, readQuoted, if_neg htake,
    if_neg hquote, h.readLiteral_eq]
  rfl

theorem isKey_escaped {body text : List Char} (h : Escaped body text) :
    IsKey ('"' :: body ++ ['"']) (String.ofList text) := by
  intro rest _
  have hread := h.readString_eq (length_lt_succ_append body ('"' :: rest)) [] rest
  simp only [List.cons_append, List.append_assoc, List.nil_append, readKeyPart, hread]
  rfl

theorem isKey_verbatim {text : List Char} (h : Verbatim text) :
    IsKey ('\'' :: text ++ ['\'']) (String.ofList text) := by
  intro rest _
  simp only [List.cons_append, List.append_assoc, List.nil_append, readKeyPart, h.readLiteral_eq]

end SieveFilter.Toml
