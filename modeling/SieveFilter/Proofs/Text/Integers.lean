import SieveFilter.Proofs.Text.Numerals
import SieveFilter.Proofs.Text.Blanks
import Mathlib.Data.List.Forall2
import Mathlib.Data.Nat.Digits.Defs

/-!
# How integers are written

A numeral of a radix is a text of one or more digits, the most significant one first and letters in either
case.  A natural number may have a plus in front of it, an integer a plus or a minus.  The readers accept these
texts up to their bounds, and no others; words are those of 64 bits.
-/

namespace SieveFilter.Text.Numeral

/-- The character shows a digit of the radix, letters being in either case. -/
def IsDigit (radix : ℕ) (c : Char) (d : ℕ) : Prop :=
  d < radix ∧ (c = Nat.digitChar d ∨ c = (Nat.digitChar d).toUpper)

/-- The text consists of the digits of the number. -/
def Denotes (radix : ℕ) (text : List Char) (n : ℕ) : Prop :=
  text ≠ [] ∧ ∃ digits, List.Forall₂ (IsDigit radix) text digits ∧ Nat.ofDigits radix digits.reverse = n

/-- The text is a natural number, maybe with a plus in front. -/
def Unsigned (radix : ℕ) (text : List Char) (n : ℕ) : Prop :=
  ∃ digits, (text = digits ∨ text = '+' :: digits) ∧ Denotes radix digits n

/-- The text is a decimal integer, maybe with a sign in front. -/
def Signed (text : List Char) (a : ℤ) : Prop :=
  (∃ n : ℕ, Unsigned 10 text n ∧ a = n) ∨
    ∃ digits n, text = '-' :: digits ∧ Denotes 10 digits n ∧ a = -n

/-- The text is a natural number of 64 bits, blanks around it allowed. -/
def Word (radix : ℕ) (text : List Char) (n : ℕ) : Prop :=
  ∃ core, Trimmed text core ∧ Unsigned radix core n ∧ n < 2 ^ 64

/-- The text is an integer of 64 bits, blanks around it allowed. -/
def SignedWord (text : List Char) (a : ℤ) : Prop :=
  ∃ core, Trimmed text core ∧ Signed core a ∧ -2 ^ 63 ≤ a ∧ a < 2 ^ 63

/-! ## Digits -/

theorem mem_range_iff {first last c : Char} :
    (decide (first ≤ c) && decide (c ≤ last)) = true ↔ first.toNat ≤ c.toNat ∧ c.toNat ≤ last.toNat := by
  rw [Bool.and_eq_true, decide_eq_true_eq, decide_eq_true_eq]
  rfl

theorem eq_ofNat_of_sub {c : Char} {start d : ℕ} (hle : start ≤ c.toNat)
    (hd : c.toNat - start = d) : c = Char.ofNat (start + d) := by
  rw [← hd, Nat.add_sub_cancel' hle, Char.ofNat_toNat]

/-- Digits and letters stand for their places in their ranges. -/
theorem digitValue?_eq_some_iff {c : Char} {d : ℕ} (hd : d < 16) :
    digitValue? c = some d ↔ c = Nat.digitChar d ∨ c = (Nat.digitChar d).toUpper := by
  have hchars : ∀ d < 16,
      (d < 10 → Char.ofNat (48 + d) = Nat.digitChar d) ∧
        (10 ≤ d → Char.ofNat (97 + (d - 10)) = Nat.digitChar d ∧
          Char.ofNat (65 + (d - 10)) = (Nat.digitChar d).toUpper) := by decide
  have hvalues : ∀ d < 16, digitValue? (Nat.digitChar d) = some d ∧
      digitValue? (Nat.digitChar d).toUpper = some d := by decide
  constructor
  · intro hvalue
    simp only [digitValue?, mem_range_iff] at hvalue
    split at hvalue
    next hdecimal =>
      have hrange : 48 ≤ c.toNat ∧ c.toNat ≤ 57 := hdecimal
      have hsub : c.toNat - 48 = d := Option.some.inj hvalue
      rw [eq_ofNat_of_sub hrange.1 hsub]
      exact .inl ((hchars d hd).1 (by omega))
    next =>
      split at hvalue
      next hlower =>
        have hrange : 97 ≤ c.toNat ∧ c.toNat ≤ 122 := hlower
        have hsub : c.toNat - 97 + 10 = d := Option.some.inj hvalue
        rw [eq_ofNat_of_sub hrange.1 (Nat.eq_sub_of_add_eq hsub)]
        exact .inl ((hchars d hd).2 (by omega)).1
      next =>
        split at hvalue
        next hupper =>
          have hrange : 65 ≤ c.toNat ∧ c.toNat ≤ 90 := hupper
          have hsub : c.toNat - 65 + 10 = d := Option.some.inj hvalue
          rw [eq_ofNat_of_sub hrange.1 (Nat.eq_sub_of_add_eq hsub)]
          exact .inr ((hchars d hd).2 (by omega)).2
        next => cases hvalue
  · rintro (rfl | rfl)
    · exact (hvalues d hd).1
    · exact (hvalues d hd).2

theorem digit?_eq_some_iff {radix : ℕ} (hradix : radix ≤ 16) {c : Char} {d : ℕ} :
    digit? radix c = some d ↔ IsDigit radix c d := by
  simp only [digit?, Option.filter_eq_some_iff, IsDigit, decide_eq_true_eq]
  constructor
  · rintro ⟨hvalue, hlt⟩
    exact ⟨hlt, (digitValue?_eq_some_iff (Nat.lt_of_lt_of_le hlt hradix)).mp hvalue⟩
  · rintro ⟨hlt, hc⟩
    exact ⟨(digitValue?_eq_some_iff (Nat.lt_of_lt_of_le hlt hradix)).mpr hc, hlt⟩

theorem digitsFrom_eq_some_iff {radix : ℕ} (hradix : radix ≤ 16) {value n : ℕ} {text : List Char} :
    digitsFrom radix value text = some n ↔
      ∃ digits, List.Forall₂ (IsDigit radix) text digits ∧
        digits.foldl (fun v d => radix * v + d) value = n := by
  induction text generalizing value with
  | nil => simp [digitsFrom]
  | cons c rest ih =>
    simp only [digitsFrom, Option.bind_eq_some_iff, ih, digit?_eq_some_iff hradix,
      List.forall₂_cons_left_iff]
    constructor
    · rintro ⟨d, hd, digits, hdigits, hvalue⟩
      exact ⟨d :: digits, ⟨d, digits, hd, hdigits, rfl⟩, hvalue⟩
    · rintro ⟨_, ⟨d, digits, hd, hdigits, rfl⟩, hvalue⟩
      exact ⟨d, hd, digits, hdigits, hvalue⟩

/-- Digits are read as the number that they denote. -/
theorem denotes_iff {radix : ℕ} (hradix : radix ≤ 16) {text : List Char} {n : ℕ} :
    Denotes radix text n ↔ text ≠ [] ∧ digitsFrom radix 0 text = some n := by
  have hvalue (digits : List ℕ) :
      Nat.ofDigits radix digits.reverse = digits.foldl (fun v d => radix * v + d) 0 := by
    simp [Nat.ofDigits_eq_foldr, Nat.add_comm]
  simp only [Denotes, digitsFrom_eq_some_iff hradix, hvalue]

/-! ## Readers -/

theorem le_of_digitsFrom {radix value n : ℕ} (hradix : 0 < radix) {text : List Char}
    (hvalue : digitsFrom radix value text = some n) : value ≤ n := by
  induction text generalizing value with
  | nil => exact (Option.some.inj hvalue).le
  | cons c rest ih =>
    obtain ⟨d, -, hrest⟩ := Option.bind_eq_some_iff.mp hvalue
    exact (Nat.le_trans (Nat.le_mul_of_pos_left value hradix) (Nat.le_add_right _ d)).trans (ih hrest)

/-- Digits only add to a value, so the bound is kept on the way when it is kept at the end. -/
theorem readDigits_eq_ok_iff {radix bound value n : ℕ} (hradix : 0 < radix) {overflow : NumeralError}
    {text : List Char} (hbound : value ≤ bound) :
    readDigits radix bound overflow value text = .ok n ↔
      digitsFrom radix value text = some n ∧ n ≤ bound := by
  induction text generalizing value with
  | nil =>
    simp only [readDigits, digitsFrom, Except.ok.injEq, Option.some.injEq]
    constructor
    · rintro rfl
      exact ⟨rfl, hbound⟩
    · exact fun h => h.1
  | cons c rest ih =>
    rw [readDigits, digitsFrom]
    cases hd : digit? radix c with
    | none => simp
    | some d =>
      rw [Option.bind_some]
      by_cases hnext : radix * value + d ≤ bound
      · simp only [if_pos hnext]
        exact ih hnext
      · simp only [if_neg hnext]
        constructor
        · intro h
          cases h
        · rintro ⟨hvalue, hn⟩
          exact absurd ((le_of_digitsFrom hradix hvalue).trans hn) hnext

theorem readDigits_zero_eq_ok_iff {radix bound n : ℕ} (hpos : 0 < radix) (hradix : radix ≤ 16)
    {overflow : NumeralError} {text : List Char} (hne : text ≠ []) :
    readDigits radix bound overflow 0 text = .ok n ↔ Denotes radix text n ∧ n ≤ bound := by
  rw [readDigits_eq_ok_iff hpos (Nat.zero_le bound), denotes_iff hradix]
  simp only [hne, ne_eq, not_false_eq_true, true_and]

/-- A sign is no digit. -/
theorem not_denotes_cons {radix : ℕ} (hradix : radix ≤ 16) {c : Char} (hc : digitValue? c = none)
    (rest : List Char) (n : ℕ) : ¬ Denotes radix (c :: rest) n := by
  rw [denotes_iff hradix, digitsFrom, digit?, hc]
  simp

theorem unsigned_plus {radix : ℕ} (hradix : radix ≤ 16) {rest : List Char} {n : ℕ} :
    Unsigned radix ('+' :: rest) n ↔ Denotes radix rest n := by
  constructor
  · rintro ⟨digits, rfl | heq, hdigits⟩
    · exact absurd hdigits (not_denotes_cons hradix rfl rest n)
    · rwa [(List.cons.inj heq).2]
  · exact fun h => ⟨rest, .inr rfl, h⟩

theorem not_denotes_nil {radix n : ℕ} : ¬ Denotes radix [] n :=
  fun h => h.1 rfl

theorem unsigned_iff_denotes {radix : ℕ} {text : List Char} {n : ℕ}
    (hplus : ∀ c rest, text ≠ '+' :: c :: rest) : Unsigned radix text n ↔ Denotes radix text n := by
  constructor
  · rintro ⟨digits, rfl | heq, hdigits⟩
    · exact hdigits
    · cases digits with
      | nil => exact absurd hdigits not_denotes_nil
      | cons c rest => exact absurd heq (hplus c rest)
  · exact fun h => ⟨text, .inl rfl, h⟩

/-- Natural numbers up to the bound are read. -/
theorem readNat_eq_ok_iff {radix bound n : ℕ} (hpos : 0 < radix) (hradix : radix ≤ 16)
    {text : List Char} : readNat radix bound text = .ok n ↔ Unsigned radix text n ∧ n ≤ bound := by
  fun_cases readNat radix bound text with
  | case1 => simp [unsigned_iff_denotes, not_denotes_nil]
  | case2 c rest =>
    rw [unsigned_plus hradix, readDigits_zero_eq_ok_iff hpos hradix (List.cons_ne_nil c rest)]
  | case3 _ hempty hplus =>
    rw [unsigned_iff_denotes hplus, readDigits_zero_eq_ok_iff hpos hradix hempty]

theorem signed_minus {rest : List Char} {a : ℤ} :
    Signed ('-' :: rest) a ↔ ∃ n, Denotes 10 rest n ∧ a = -n := by
  constructor
  · rintro (⟨n, hn, -⟩ | ⟨digits, n, heq, hn, ha⟩)
    · rw [unsigned_iff_denotes (by simp)] at hn
      exact absurd hn (not_denotes_cons (by decide) rfl rest n)
    · exact ⟨n, (List.cons.inj heq).2 ▸ hn, ha⟩
  · rintro ⟨n, hn, ha⟩
    exact .inr ⟨rest, n, rfl, hn, ha⟩

theorem signed_iff_unsigned {text : List Char} {a : ℤ} (hminus : ∀ c rest, text ≠ '-' :: c :: rest) :
    Signed text a ↔ ∃ n : ℕ, Unsigned 10 text n ∧ a = n := by
  constructor
  · rintro (h | ⟨digits, n, heq, hn, -⟩)
    · exact h
    · cases digits with
      | nil => exact absurd hn not_denotes_nil
      | cons c rest => exact absurd heq (hminus c rest)
  · exact .inl

theorem not_signed_cons {c : Char} (hc : digitValue? c = none) (hplus : c ≠ '+') (hminus : c ≠ '-')
    (rest : List Char) (a : ℤ) : ¬ Signed (c :: rest) a := by
  rintro (⟨n, ⟨digits, rfl | heq, hn⟩, -⟩ | ⟨digits, n, heq, -, -⟩)
  · exact not_denotes_cons (by decide) hc rest n hn
  · exact hplus (List.cons.inj heq).1
  · exact hminus (List.cons.inj heq).1

theorem readInt_eq_map_readNat {bound : ℕ} {text : List Char}
    (hminus : ∀ c rest, text ≠ '-' :: c :: rest) :
    readInt bound text = (readNat 10 bound text).map Int.ofNat := by
  fun_cases readInt bound text with
  | case1 => rfl
  | case2 c rest => exact absurd rfl (hminus c rest)
  | case3 c rest => rfl
  | case4 _ hempty _ hplus => rw [readNat.eq_3 _ _ _ hempty hplus]

theorem readInt_minus (bound : ℕ) (c : Char) (rest : List Char) :
    readInt bound ('-' :: c :: rest) =
      (readDigits 10 (bound + 1) .tooSmall 0 (c :: rest)).map fun n : ℕ => -(n : ℤ) := by
  rw [readInt]
  cases readDigits 10 (bound + 1) .tooSmall 0 (c :: rest) with
  | error cause => rfl
  | ok n => rfl

theorem map_eq_ok_iff {α β : Type} {f : α → β} {result : Except NumeralError α} {y : β} :
    result.map f = .ok y ↔ ∃ x, result = .ok x ∧ f x = y := by
  cases result with
  | error cause => simp [Except.map]
  | ok x => simp [Except.map]

/-- Integers within the bounds are read. -/
theorem readInt_eq_ok_iff {bound : ℕ} {text : List Char} {a : ℤ} :
    readInt bound text = .ok a ↔ Signed text a ∧ -(bound + 1) ≤ a ∧ a ≤ bound := by
  have hpos : 0 < 10 := by decide
  have hradix : 10 ≤ 16 := by decide
  by_cases hminus : ∃ c rest, text = '-' :: c :: rest
  · obtain ⟨c, rest, rfl⟩ := hminus
    rw [readInt_minus, map_eq_ok_iff, signed_minus]
    simp only [readDigits_zero_eq_ok_iff hpos hradix (List.cons_ne_nil c rest)]
    constructor
    · rintro ⟨n, ⟨hn, hle⟩, rfl⟩
      exact ⟨⟨n, hn, rfl⟩, by omega, by omega⟩
    · rintro ⟨⟨n, hn, rfl⟩, hlow, -⟩
      exact ⟨n, ⟨hn, by omega⟩, rfl⟩
  · have hnot : ∀ c rest, text ≠ '-' :: c :: rest := fun c rest heq => hminus ⟨c, rest, heq⟩
    rw [readInt_eq_map_readNat hnot, map_eq_ok_iff, signed_iff_unsigned hnot]
    simp only [readNat_eq_ok_iff hpos hradix]
    constructor
    · rintro ⟨n, ⟨hn, hle⟩, rfl⟩
      exact ⟨⟨n, hn, rfl⟩, by simp; omega, by simpa using hle⟩
    · rintro ⟨⟨n, hn, rfl⟩, -, hle⟩
      exact ⟨n, ⟨hn, by omega⟩, rfl⟩

/-! ## Words -/

theorem word_iff {radix : ℕ} {text : List Char} {n : ℕ} :
    Word radix text n ↔ Unsigned radix (trim text) n ∧ n < 2 ^ 64 := by
  simp only [Word, ← trim_eq_iff, exists_eq_left']

theorem readNat_trim_eq_ok_iff {radix n : ℕ} (hpos : 0 < radix) (hradix : radix ≤ 16)
    {text : List Char} : readNat radix maxWord (trim text) = .ok n ↔ Word radix text n := by
  have hbound : n ≤ maxWord ↔ n < 2 ^ 64 := Nat.le_sub_one_iff_lt (Nat.two_pow_pos 64)
  rw [readNat_eq_ok_iff hpos hradix, hbound, word_iff]

theorem readInt_trim_eq_ok_iff {text : List Char} {a : ℤ} :
    readInt maxSigned (trim text) = .ok a ↔ SignedWord text a := by
  have hmax : (maxSigned : ℤ) = 2 ^ 63 - 1 := by decide
  simp only [readInt_eq_ok_iff, hmax, Int.sub_add_cancel, Int.le_sub_one_iff, SignedWord,
    ← trim_eq_iff, exists_eq_left']

theorem not_word_of_allBlank {radix : ℕ} {text : List Char} (hblank : AllBlank text) (n : ℕ) :
    ¬ Word radix text n := by
  rw [word_iff, trim_eq_nil_iff.mpr hblank, unsigned_iff_denotes (by simp)]
  exact fun h => not_denotes_nil h.1

/-! ## Written numbers -/

theorem denotes_toDigits {radix : ℕ} (hone : 1 < radix) (hradix : radix ≤ 16) (n : ℕ) :
    Denotes radix (Nat.toDigits radix n) n :=
  (denotes_iff hradix).mpr ⟨Nat.toDigits_ne_nil, digitsFrom_toDigits hone hradix n⟩

theorem unsigned_decimal (n : ℕ) : Unsigned 10 (decimal n) n :=
  ⟨_, .inl rfl, denotes_toDigits (by decide) (by decide) n⟩

theorem unsigned_hex (n : ℕ) : Unsigned 16 (hex n) n :=
  ⟨_, .inl rfl, denotes_toDigits (by decide) (by decide) n⟩

theorem word_of_unsigned {radix n : ℕ} {text : List Char} (hplain : ∀ c ∈ text, isBlank c = false)
    (hvalue : Unsigned radix text n) (hn : n < 2 ^ 64) : Word radix text n :=
  ⟨text, trim_eq_iff.mp (trim_eq_self hplain), hvalue, hn⟩

theorem word_decimal {n : ℕ} (hn : n < 2 ^ 64) : Word 10 (decimal n) n :=
  word_of_unsigned (forall_mem_decimal (by decide) n) (unsigned_decimal n) hn

theorem word_hex {n : ℕ} (hn : n < 2 ^ 64) : Word 16 (hex n) n :=
  word_of_unsigned (forall_mem_hex (by decide) n) (unsigned_hex n) hn

theorem signed_decimalInt (a : ℤ) : Signed (decimalInt a) a := by
  cases a with
  | ofNat n => exact .inl ⟨n, unsigned_decimal n, rfl⟩
  | negSucc n =>
    exact .inr ⟨_, n + 1, rfl, denotes_toDigits (by decide) (by decide) (n + 1), rfl⟩

theorem signedWord_decimalInt {a : ℤ} (hlow : -2 ^ 63 ≤ a) (hhigh : a < 2 ^ 63) :
    SignedWord (decimalInt a) a :=
  ⟨_, trim_eq_iff.mp (trim_eq_self (forall_mem_decimalInt (by decide) (by decide) a)),
    signed_decimalInt a, hlow, hhigh⟩

end SieveFilter.Text.Numeral
