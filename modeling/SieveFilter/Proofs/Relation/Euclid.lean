import SieveFilter.Relation.Root
import Mathlib.Algebra.Order.Ring.Abs
import Mathlib.Data.Int.GCD
import Mathlib.Tactic.Linarith
import Mathlib.Tactic.LinearCombination
import Mathlib.Tactic.Ring

/-!
# The Euclidean algorithm in words

The extended Euclidean algorithm is written down a second time, with both multipliers and with a check after
every operation that the result fits into a signed word of 128 bits.  The multipliers change their signs in
turn, so the products of the absolute values of one pair with the remainders add up to the same number after
every division.  Hence no multiplier and no product ever exceeds the numbers that the algorithm started from, no
check fails, and the multiplier found is that of the loop without checks.
-/

namespace SieveFilter.Relation

/-- A number, if it fits into a signed word of 128 bits. -/
def signedWord? (x : ℤ) : Option ℤ :=
  if -2 ^ 127 ≤ x ∧ x < 2 ^ 127 then some x else none

theorem signedWord?_eq_some_iff {x y : ℤ} :
    signedWord? x = some y ↔ -2 ^ 127 ≤ x ∧ x < 2 ^ 127 ∧ x = y := by
  simp [signedWord?, and_assoc]

/-- Two successive remainders and the multipliers that express them through the starting numbers, `r₁` being
`s₁ * n + t₁ * m` and `r₀` being `s₀ * n + t₀ * m`. -/
structure Euclid where
  r₁ : ℤ
  r₀ : ℤ
  s₁ : ℤ
  s₀ : ℤ
  t₁ : ℤ
  t₀ : ℤ

namespace Euclid

def start (n m : ℤ) : Euclid :=
  ⟨n, m, 1, 0, 0, 1⟩

/-- Takes `q` times the later number of a pair off the earlier one. -/
def lessMultiple? (q x₁ x₀ : ℤ) : Option ℤ := do
  let product ← signedWord? (q * x₀)
  signedWord? (x₁ - product)

/-- One division, whose quotient reduces the remainders and both pairs of multipliers. -/
def step? (e : Euclid) : Option Euclid := do
  let q ← signedWord? (e.r₁.tdiv e.r₀)
  let r ← lessMultiple? q e.r₁ e.r₀
  let s ← lessMultiple? q e.s₁ e.s₀
  let t ← lessMultiple? q e.t₁ e.t₀
  return ⟨e.r₀, r, e.s₀, s, e.t₀, t⟩

/-- A division makes the later remainder smaller. -/
theorem natAbs_lt_of_step? {e next : Euclid} (h : e.step? = some next) (hr : e.r₀ ≠ 0) :
    next.r₀.natAbs < e.r₀.natAbs := by
  simp only [step?, lessMultiple?, Option.bind_eq_bind, Option.bind_eq_some_iff,
    signedWord?_eq_some_iff] at h
  obtain ⟨_, ⟨-, -, rfl⟩, r, ⟨_, ⟨-, -, rfl⟩, -, -, rfl⟩, s, -, t, -, hnext⟩ := h
  cases hnext
  have hrest : e.r₁ - e.r₁.tdiv e.r₀ * e.r₀ = e.r₁.tmod e.r₀ := by
    rw [Int.tmod_def, mul_comm]
  rw [hrest, Int.natAbs_tmod]
  exact Nat.mod_lt _ (Int.natAbs_pos.mpr hr)

/-- Divides until no remainder is left. -/
def run? (e : Euclid) : Option Euclid :=
  if _ : e.r₀ = 0 then some e
  else
    match _ : e.step? with
    | none => none
    | some next => run? next
termination_by e.r₀.natAbs
decreasing_by exact natAbs_lt_of_step? (by assumption) (by assumption)

/-- The greatest common divisor and its multipliers, with the signs that make the divisor positive. -/
def result? (e : Euclid) : Option (ℤ × ℤ × ℤ) :=
  if 0 ≤ e.r₁ then some (e.r₁, e.s₁, e.t₁)
  else do
    let gcd ← signedWord? (0 - e.r₁)
    let x ← signedWord? (0 - e.s₁)
    let y ← signedWord? (0 - e.t₁)
    return (gcd, x, y)

end Euclid

/-- The greatest common divisor of two numbers and the multipliers that express it, if every number that is
met on the way fits into its word. -/
def extendedGcd? (n m : ℤ) : Option (ℤ × ℤ × ℤ) :=
  (Euclid.start n m).run?.bind Euclid.result?

/-! ## Bounds -/

/-- The multipliers of two successive remainders: their signs differ, and their absolute values, each with
the remainder of the other, add up to the bound. -/
structure Balanced (bound r₁ r₀ x₁ x₀ : ℤ) : Prop where
  signs : x₁ * x₀ ≤ 0
  sum_eq : |x₁| * r₀ + |x₀| * r₁ = bound
  abs_le : |x₁| ≤ bound

namespace Balanced

variable {bound r₁ r₀ x₁ x₀ : ℤ}

/-- The later multiplier does not exceed the bound either. -/
theorem abs_later_le (h : Balanced bound r₁ r₀ x₁ x₀) (hr₁ : 0 < r₁) (hr₀ : 0 ≤ r₀) : |x₀| ≤ bound := by
  have hearlier : 0 ≤ |x₁| * r₀ := mul_nonneg (abs_nonneg x₁) hr₀
  have hlater : |x₀| * 1 ≤ |x₀| * r₁ := mul_le_mul_of_nonneg_left hr₁ (abs_nonneg x₀)
  have hsum := h.sum_eq
  linarith

/-- Where the signs differ, absolute values are added. -/
theorem abs_lessMultiple (h : Balanced bound r₁ r₀ x₁ x₀) {q : ℤ} (hq : 0 ≤ q) :
    |x₁ - q * x₀| = |x₁| + q * |x₀| := by
  rcases mul_nonpos_iff.mp h.signs with ⟨hx₁, hx₀⟩ | ⟨hx₁, hx₀⟩
  · have hproduct : q * x₀ ≤ 0 := mul_nonpos_of_nonneg_of_nonpos hq hx₀
    rw [abs_of_nonneg (by linarith), abs_of_nonneg hx₁, abs_of_nonpos hx₀]
    ring
  · have hproduct : 0 ≤ q * x₀ := mul_nonneg hq hx₀
    rw [abs_of_nonpos (by linarith), abs_of_nonpos hx₁, abs_of_nonneg hx₀]
    ring

/-- The product with the quotient does not exceed the bound. -/
theorem abs_quotient_mul_le (h : Balanced bound r₁ r₀ x₁ x₀) (hr₁ : 0 < r₁) (hr₀ : 0 < r₀) :
    |r₁ / r₀ * x₀| ≤ bound := by
  have hq : 0 ≤ r₁ / r₀ := Int.ediv_nonneg hr₁.le hr₀.le
  have hle : r₁ / r₀ ≤ r₁ := Int.ediv_le_self r₀ hr₁.le
  have hearlier : 0 ≤ |x₁| * r₀ := mul_nonneg (abs_nonneg x₁) hr₀.le
  have hlater : |x₀| * (r₁ / r₀) ≤ |x₀| * r₁ := mul_le_mul_of_nonneg_left hle (abs_nonneg x₀)
  have hsum := h.sum_eq
  rw [abs_mul, abs_of_nonneg hq]
  linarith

/-- A division keeps the balance. -/
theorem step (h : Balanced bound r₁ r₀ x₁ x₀) (hr₁ : 0 < r₁) (hr₀ : 0 < r₀) :
    Balanced bound r₀ (r₁ % r₀) x₀ (x₁ - r₁ / r₀ * x₀) := by
  have hq : 0 ≤ r₁ / r₀ := Int.ediv_nonneg hr₁.le hr₀.le
  have hsum := h.sum_eq
  refine ⟨?_, ?_, h.abs_later_le hr₁ hr₀.le⟩
  · have hsquare : 0 ≤ r₁ / r₀ * (x₀ * x₀) := mul_nonneg hq (mul_self_nonneg x₀)
    have hsigns := h.signs
    calc
      x₀ * (x₁ - r₁ / r₀ * x₀) = x₁ * x₀ - r₁ / r₀ * (x₀ * x₀) := by ring
      _ ≤ 0 := by linarith
  · rw [h.abs_lessMultiple hq, Int.emod_def]
    calc
      |x₀| * (r₁ - r₀ * (r₁ / r₀)) + (|x₁| + r₁ / r₀ * |x₀|) * r₀ = |x₁| * r₀ + |x₀| * r₁ := by ring
      _ = bound := hsum

end Balanced

/-! ## Runs -/

namespace Euclid

/-- What every division keeps: the multipliers express the remainders and are balanced, and the greatest common
divisor of the remainders stays the same. -/
structure Sound (n m : ℤ) (e : Euclid) : Prop where
  r₁_pos : 0 < e.r₁
  r₀_nonneg : 0 ≤ e.r₀
  earlier_eq : e.s₁ * n + e.t₁ * m = e.r₁
  later_eq : e.s₀ * n + e.t₀ * m = e.r₀
  gcd_eq : Int.gcd e.r₁ e.r₀ = Int.gcd n m
  s_balanced : Balanced m e.r₁ e.r₀ e.s₁ e.s₀
  t_balanced : Balanced n e.r₁ e.r₀ e.t₁ e.t₀
  r₁_le : e.r₁ ≤ max n m
  r₀_le : e.r₀ ≤ max n m

theorem sound_start {n m : ℤ} (hn : 0 < n) (hm : 0 < m) : Sound n m (start n m) where
  r₁_pos := hn
  r₀_nonneg := hm.le
  earlier_eq := by simp [start]
  later_eq := by simp [start]
  gcd_eq := rfl
  s_balanced := ⟨by simp [start], by simp [start], by simp [start]; omega⟩
  t_balanced := ⟨by simp [start], by simp [start], by simp [start]; omega⟩
  r₁_le := le_max_left n m
  r₀_le := le_max_right n m

/-- The state after one division. -/
def next (e : Euclid) : Euclid :=
  ⟨e.r₀, e.r₁ % e.r₀, e.s₀, e.s₁ - e.r₁ / e.r₀ * e.s₀, e.t₀, e.t₁ - e.r₁ / e.r₀ * e.t₀⟩

variable {n m : ℤ} {e : Euclid}

theorem Sound.next (h : Sound n m e) (hr : 0 < e.r₀) : Sound n m e.next where
  r₁_pos := hr
  r₀_nonneg := Int.emod_nonneg _ hr.ne'
  earlier_eq := h.later_eq
  later_eq := by
    have hearlier := h.earlier_eq
    have hlater := h.later_eq
    simp only [Euclid.next, Int.emod_def]
    linear_combination hearlier - e.r₁ / e.r₀ * hlater
  gcd_eq := by
    rw [← h.gcd_eq, Euclid.next, Int.gcd_comm, Int.gcd_emod]
  s_balanced := h.s_balanced.step h.r₁_pos hr
  t_balanced := h.t_balanced.step h.r₁_pos hr
  r₁_le := h.r₀_le
  r₀_le := ((Int.emod_lt_of_pos _ hr).le).trans h.r₀_le

theorem signedWord?_of_abs_le {x bound : ℤ} (hx : |x| ≤ bound) (hbound : bound < 2 ^ 127) :
    signedWord? x = some x := by
  obtain ⟨hlow, hhigh⟩ := abs_le.mp hx
  exact signedWord?_eq_some_iff.mpr ⟨by linarith, by linarith, rfl⟩

theorem lessMultiple?_eq {bound q x₁ x₀ : ℤ} (hproduct : |q * x₀| ≤ bound)
    (hrest : |x₁ - q * x₀| ≤ bound) (hbound : bound < 2 ^ 127) :
    lessMultiple? q x₁ x₀ = some (x₁ - q * x₀) := by
  simp only [lessMultiple?, signedWord?_of_abs_le hproduct hbound, Option.bind_eq_bind, Option.bind_some,
    signedWord?_of_abs_le hrest hbound]

/-- No check of a division fails while the starting numbers fit into words. -/
theorem Sound.step?_eq (h : Sound n m e) (hr : 0 < e.r₀) (hn : n < 2 ^ 127) (hm : m < 2 ^ 127) :
    e.step? = some e.next := by
  have hnext := h.next hr
  have hq : 0 ≤ e.r₁ / e.r₀ := Int.ediv_nonneg h.r₁_pos.le hr.le
  have hquotient : |e.r₁ / e.r₀| ≤ e.r₁ := by
    rw [abs_of_nonneg hq]
    exact Int.ediv_le_self e.r₀ h.r₁_pos.le
  have hr₁ : e.r₁ < 2 ^ 127 := h.r₁_le.trans_lt (max_lt hn hm)
  have hrest : e.r₁ - e.r₁ / e.r₀ * e.r₀ = e.r₁ % e.r₀ := by
    rw [Int.emod_def, mul_comm]
  have hnonneg : 0 ≤ e.r₁ % e.r₀ := Int.emod_nonneg _ hr.ne'
  have hproduct : 0 ≤ e.r₁ / e.r₀ * e.r₀ := mul_nonneg hq hr.le
  have hremainder : lessMultiple? (e.r₁ / e.r₀) e.r₁ e.r₀ = some (e.r₁ % e.r₀) := by
    rw [← hrest]
    apply lessMultiple?_eq _ _ hr₁
    · rw [abs_of_nonneg hproduct]
      linarith
    · rw [hrest, abs_of_nonneg hnonneg]
      linarith
  have hs : lessMultiple? (e.r₁ / e.r₀) e.s₁ e.s₀ = some (e.s₁ - e.r₁ / e.r₀ * e.s₀) :=
    lessMultiple?_eq (h.s_balanced.abs_quotient_mul_le h.r₁_pos hr)
      (hnext.s_balanced.abs_later_le hnext.r₁_pos hnext.r₀_nonneg) hm
  have ht : lessMultiple? (e.r₁ / e.r₀) e.t₁ e.t₀ = some (e.t₁ - e.r₁ / e.r₀ * e.t₀) :=
    lessMultiple?_eq (h.t_balanced.abs_quotient_mul_le h.r₁_pos hr)
      (hnext.t_balanced.abs_later_le hnext.r₁_pos hnext.r₀_nonneg) hn
  simp only [step?, Int.tdiv_eq_ediv_of_nonneg h.r₁_pos.le, signedWord?_of_abs_le hquotient hr₁, hremainder,
    hs, ht, Option.bind_eq_bind, Option.bind_some]
  rfl

/-- Divisions without checks, on the remainders as natural numbers, find the same multiplier. -/
theorem Sound.bezoutLoop_next (h : Sound n m e) (hr : 0 < e.r₀) :
    bezoutLoop e.r₁.toNat e.r₀.toNat e.s₁ e.s₀ =
      bezoutLoop e.next.r₁.toNat e.next.r₀.toNat e.next.s₁ e.next.s₀ := by
  obtain ⟨k, hk⟩ : ∃ k : ℕ, e.r₀ = (k + 1 : ℕ) := ⟨e.r₀.toNat - 1, by omega⟩
  obtain ⟨l, hl⟩ : ∃ l : ℕ, e.r₁ = l := Int.eq_ofNat_of_zero_le h.r₁_pos.le
  simp only [Euclid.next, hk, hl, Int.toNat_natCast, ← Int.natCast_mod, ← Int.natCast_ediv]
  rw [bezoutLoop]

/-- The run from starting numbers that fit into words passes all checks, and ends with no remainder left. -/
theorem Sound.exists_run (h : Sound n m e) (hn : n < 2 ^ 127) (hm : m < 2 ^ 127) :
    ∃ final, e.run? = some final ∧ Sound n m final ∧ final.r₀ = 0 ∧
      final.s₁ = bezoutLoop e.r₁.toNat e.r₀.toNat e.s₁ e.s₀ := by
  fun_induction run? e with
  | case1 e hr =>
    refine ⟨e, rfl, h, hr, ?_⟩
    rw [hr, Int.toNat_zero, bezoutLoop]
  | case2 e hr hnone =>
    have hpos : 0 < e.r₀ := lt_of_le_of_ne h.r₀_nonneg (Ne.symm hr)
    rw [h.step?_eq hpos hn hm] at hnone
    cases hnone
  | case3 e hr next hnext ih =>
    have hpos : 0 < e.r₀ := lt_of_le_of_ne h.r₀_nonneg (Ne.symm hr)
    rw [h.step?_eq hpos hn hm, Option.some.injEq] at hnext
    subst hnext
    rw [h.bezoutLoop_next hpos]
    exact ih (h.next hpos)

end Euclid

/-- The extended Euclidean algorithm on numbers that fit into words passes all checks.  It finds the greatest
common divisor with its multipliers, the first of which is the one found without checks. -/
theorem exists_extendedGcd {n m : ℕ} (hn : 0 < n) (hm : 0 < m) (hn' : n < 2 ^ 127) (hm' : m < 2 ^ 127) :
    ∃ y, extendedGcd? n m = some ((Nat.gcd n m : ℤ), bezout n m, y) ∧
      bezout n m * n + y * m = (Nat.gcd n m : ℤ) ∧ |bezout n m| ≤ m ∧ |y| ≤ n := by
  have hstart := Euclid.sound_start (Int.natCast_pos.mpr hn) (Int.natCast_pos.mpr hm)
  obtain ⟨final, hrun, hfinal, hend, hmultiplier⟩ :=
    hstart.exists_run (by exact_mod_cast hn') (by exact_mod_cast hm')
  have hbezout : final.s₁ = bezout n m := hmultiplier
  have hgcd : final.r₁ = (Nat.gcd n m : ℤ) := by
    have hkept := hfinal.gcd_eq
    rw [hend, Int.gcd_zero_right, Int.gcd_natCast_natCast] at hkept
    rw [← hkept, Int.natAbs_of_nonneg hfinal.r₁_pos.le]
  refine ⟨final.t₁, ?_, ?_, ?_, hfinal.t_balanced.abs_le⟩
  · rw [extendedGcd?, hrun, Option.bind_some, Euclid.result?, if_pos hfinal.r₁_pos.le, hgcd, hbezout]
  · rw [← hbezout, hfinal.earlier_eq, hgcd]
  · rw [← hbezout]
    exact hfinal.s_balanced.abs_le

end SieveFilter.Relation
