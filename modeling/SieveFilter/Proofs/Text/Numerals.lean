import SieveFilter.Proofs.Text.Lines
import SieveFilter.Text.Numeral
import Mathlib.Data.Int.Notation
import Mathlib.Data.List.Basic

/-!
# Numerals are read back

The numeral of a natural number in a radix of at most sixteen stands for that number, and it has no
character that separates words or lines.
-/

namespace SieveFilter.Text.Numeral

/-- The number that a numeral stands for; the empty text is none. -/
def value? (radix : ℕ) (text : List Char) : Option ℕ :=
  if text.isEmpty then none else digitsFrom radix 0 text

theorem digit?_digitChar {radix d : ℕ} (hradix : radix ≤ 16) (hd : d < radix) :
    digit? radix (Nat.digitChar d) = some d := by
  have hvalue : ∀ d < 16, digitValue? (Nat.digitChar d) = some d := by decide
  rw [digit?, hvalue d (by omega), Option.filter_some]
  simp [hd]

theorem digitsFrom_append (radix value : ℕ) (text : List Char) (c : Char) :
    digitsFrom radix value (text ++ [c]) =
      (digitsFrom radix value text).bind fun n =>
        (digit? radix c).map fun d => radix * n + d := by
  induction text generalizing value with
  | nil =>
    simp only [List.nil_append, digitsFrom, Option.bind_some]
    cases digit? radix c with
    | none => rfl
    | some d => rfl
  | cons first rest ih =>
    simp only [List.cons_append, digitsFrom]
    cases digit? radix first with
    | none => rfl
    | some d => exact ih (radix * value + d)

/-- The digits of a number stand for it. -/
theorem digitsFrom_toDigits {radix : ℕ} (hone : 1 < radix) (hradix : radix ≤ 16) (n : ℕ) :
    digitsFrom radix 0 (Nat.toDigits radix n) = some n := by
  induction n using Nat.strongRecOn with
  | ind n ih =>
    rw [Nat.toDigits_eq_if hone]
    split
    next hlt => simp [digitsFrom, digit?_digitChar hradix hlt]
    next hge =>
      have hless : n / radix < n := Nat.div_lt_self (by omega) hone
      have hdigit : n % radix < radix := Nat.mod_lt n (by omega)
      rw [digitsFrom_append, ih _ hless, Option.bind_some, digit?_digitChar hradix hdigit,
        Option.map_some, Nat.div_add_mod]

/-- A numeral is made of digits. -/
theorem mem_toDigits {radix : ℕ} (hone : 1 < radix) (hradix : radix ≤ 16) {n : ℕ} {c : Char}
    (hc : c ∈ Nat.toDigits radix n) : ∃ d < 16, c = Nat.digitChar d := by
  induction n using Nat.strongRecOn with
  | ind n ih =>
    rw [Nat.toDigits_eq_if hone] at hc
    split at hc
    next hlt => exact ⟨n, by omega, List.mem_singleton.mp hc⟩
    next hge =>
      rcases List.mem_append.mp hc with hc | hc
      · exact ih _ (Nat.div_lt_self (by omega) hone) hc
      · have hdigit : n % radix < radix := Nat.mod_lt n (by omega)
        exact ⟨n % radix, by omega, List.mem_singleton.mp hc⟩

section

variable {radix : ℕ} (hone : 1 < radix) (hradix : radix ≤ 16) (n : ℕ)

include hone hradix

theorem value?_toDigits : value? radix (Nat.toDigits radix n) = some n := by
  have hne : (Nat.toDigits radix n).isEmpty = false := by
    simp [Nat.toDigits_ne_nil]
  rw [value?, hne, if_neg Bool.false_ne_true, digitsFrom_toDigits hone hradix]

theorem forall_mem_toDigits {property : Char → Prop} (hdigits : ∀ d < 16, property (Nat.digitChar d)) :
    ∀ c ∈ Nat.toDigits radix n, property c := by
  intro c hc
  obtain ⟨d, hd, rfl⟩ := mem_toDigits hone hradix hc
  exact hdigits d hd

/-- A numeral separates neither words nor lines. -/
theorem plain_toDigits : Plain (Nat.toDigits radix n) := by
  have hdigits : ∀ d < 16, Nat.digitChar d ≠ ' ' ∧ Nat.digitChar d ≠ '\n' := by decide
  have hplain : ∀ c ∈ Nat.toDigits radix n, c ≠ ' ' ∧ c ≠ '\n' :=
    forall_mem_toDigits hone hradix n hdigits
  exact ⟨fun hc => (hplain _ hc).1 rfl, fun hc => (hplain _ hc).2 rfl⟩

end

section

variable {property : Char → Prop} (hdigits : ∀ d < 16, property (Nat.digitChar d))

include hdigits

theorem forall_mem_decimal (n : ℕ) : ∀ c ∈ decimal n, property c :=
  forall_mem_toDigits (by decide) (by decide) n hdigits

theorem forall_mem_hex (n : ℕ) : ∀ c ∈ hex n, property c :=
  forall_mem_toDigits (by decide) (by decide) n hdigits

theorem forall_mem_decimalInt (hminus : property '-') (a : ℤ) : ∀ c ∈ decimalInt a, property c := by
  cases a with
  | ofNat n => exact forall_mem_decimal hdigits n
  | negSucc n => exact List.forall_mem_cons.mpr ⟨hminus, forall_mem_decimal hdigits (n + 1)⟩

end

theorem plain_decimal (n : ℕ) : Plain (decimal n) :=
  plain_toDigits (by decide) (by decide) n

theorem plain_hex (n : ℕ) : Plain (hex n) :=
  plain_toDigits (by decide) (by decide) n

theorem value?_decimal (n : ℕ) : value? 10 (decimal n) = some n :=
  value?_toDigits (by decide) (by decide) n

theorem value?_hex (n : ℕ) : value? 16 (hex n) = some n :=
  value?_toDigits (by decide) (by decide) n

end SieveFilter.Text.Numeral
