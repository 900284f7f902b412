import SieveFilter.Proofs.Relation.Euclid
import Mathlib.Data.Int.ModEq

/-!
# Roots of ideals

The root of an ideal solves a congruence: `b` times the root is `a` times the greatest common divisor of `b` and
the prime, so it is the quotient of `a` and `b` where they have one.  The computation is written down a second
time in words, signed ones of 128 bits for the residues and the multipliers and unsigned ones for their product,
with a check after every operation; for coordinates of 64 bits no check fails.
-/

namespace SieveFilter.Relation

/-- A number, if it fits into an unsigned word of so many bits. -/
def unsignedWord? (bits : ℕ) (x : ℤ) : Option ℤ :=
  if 0 ≤ x ∧ x < 2 ^ bits then some x else none

/-- The remainder with the sign of the divisor, from the remainder with the sign of the number. -/
def modFloor? (x p : ℤ) : Option ℤ :=
  let r := x.tmod p
  if 0 < r ∧ p < 0 ∨ r < 0 ∧ 0 < p then signedWord? (r + p) else some r

/-- The root above `p`, if every number that is met on the way fits into its word. -/
def rootInWords? (a : ℤ) (b p : ℕ) : Option ℕ := do
  let modulus ← signedWord? p
  let b' ← modFloor? (← signedWord? b) modulus
  if b' = 0 then return p
  else
    let a' ← modFloor? (← signedWord? a) modulus
    let (_, x, _) ← extendedGcd? b' modulus
    let inverse ← modFloor? x modulus
    let product ← unsignedWord? 128 ((← unsignedWord? 128 a') * (← unsignedWord? 128 inverse))
    let root ← unsignedWord? 64 (product % p)
    return root.toNat

/-! ## Words -/

theorem signedWord?_eq {x : ℤ} (hlow : -2 ^ 127 ≤ x) (hhigh : x < 2 ^ 127) : signedWord? x = some x :=
  signedWord?_eq_some_iff.mpr ⟨hlow, hhigh, rfl⟩

theorem unsignedWord?_eq {bits : ℕ} {x : ℤ} (hlow : 0 ≤ x) (hhigh : x < 2 ^ bits) :
    unsignedWord? bits x = some x :=
  if_pos ⟨hlow, hhigh⟩

/-- A residue of 64 bits fits into every word of as many bits or more. -/
theorem unsignedWord?_emod {bits p : ℕ} (hbits : 64 ≤ bits) (hp : 0 < p) (hp' : p < 2 ^ 64) (x : ℤ) :
    unsignedWord? bits (x % p) = some (x % p) := by
  have hpow : (2 : ℤ) ^ 64 ≤ 2 ^ bits := pow_le_pow_right₀ (by norm_num) hbits
  have hlt : x % p < p := Int.emod_lt_of_pos x (by omega)
  exact unsignedWord?_eq (Int.emod_nonneg x (by omega)) (by omega)

/-- The product of two residues of 64 bits has 128 bits. -/
theorem unsignedWord?_emod_mul_emod {p : ℕ} (hp : 0 < p) (hp' : p < 2 ^ 64) (x y : ℤ) :
    unsignedWord? 128 (x % p * (y % p)) = some (x % p * (y % p)) := by
  have hx := Int.emod_nonneg x (show (p : ℤ) ≠ 0 by omega)
  have hy := Int.emod_nonneg y (show (p : ℤ) ≠ 0 by omega)
  have hx' : x % p < p := Int.emod_lt_of_pos x (by omega)
  have hy' : y % p < p := Int.emod_lt_of_pos y (by omega)
  apply unsignedWord?_eq (mul_nonneg hx hy)
  calc
    x % p * (y % p) < 2 ^ 64 * 2 ^ 64 := mul_lt_mul'' (by omega) (by omega) hx hy
    _ = 2 ^ 128 := by norm_num

theorem modFloor?_eq {p : ℤ} (hp : 0 < p) (hp' : p < 2 ^ 127) (x : ℤ) : modFloor? x p = some (x % p) := by
  have hnonneg := Int.emod_nonneg x hp.ne'
  have hlt := Int.emod_lt_of_pos x hp
  have hmod : x.tmod p = x % p ∨ x.tmod p = x % p - p := by
    rw [Int.tmod_eq_emod]
    split
    · exact .inl (sub_zero _)
    · exact .inr (by rw [Int.natAbs_of_nonneg hp.le])
  simp only [modFloor?]
  rcases hmod with heq | heq
  · rw [heq, if_neg (by omega)]
  · rw [heq, if_pos (by omega), sub_add_cancel, signedWord?_eq (by omega) (by omega)]

/-! ## The congruence -/

variable {a : ℤ} {b p : ℕ}

theorem findRoot_lt (hp : 0 < p) (hdvd : ¬p ∣ b) : findRoot a b p < p := by
  rw [Nat.dvd_iff_mod_eq_zero] at hdvd
  have hlt := Int.emod_lt_of_pos (a % p * (bezout (b % p) p % p)) (Int.natCast_pos.mpr hp)
  rw [findRoot, if_neg hdvd]
  omega

/-- The root is at infinity exactly if `p` divides `b`. -/
theorem findRoot_eq_prime_iff (hp : 0 < p) : findRoot a b p = p ↔ p ∣ b := by
  constructor
  · intro heq
    by_contra hdvd
    exact (findRoot_lt hp hdvd).ne heq
  · intro hdvd
    rw [findRoot, if_pos (Nat.dvd_iff_mod_eq_zero.mp hdvd)]

/-- Away from infinity the root is `a` times the multiplier of `b`. -/
theorem findRoot_modEq (hp : 0 < p) (hdvd : ¬p ∣ b) :
    (findRoot a b p : ℤ) ≡ a * bezout (b % p) p [ZMOD p] := by
  have hnonneg := Int.emod_nonneg (a % p * (bezout (b % p) p % p)) (Int.natCast_pos.mpr hp).ne'
  rw [Nat.dvd_iff_mod_eq_zero] at hdvd
  rw [findRoot, if_neg hdvd, Int.toNat_of_nonneg hnonneg]
  exact (Int.mod_modEq _ _).trans ((Int.mod_modEq _ _).mul (Int.mod_modEq _ _))

theorem mul_findRoot_modEq (hp : 0 < p) (hp' : p < 2 ^ 64) (hdvd : ¬p ∣ b) :
    b * (findRoot a b p : ℤ) ≡ a * (Nat.gcd b p : ℕ) [ZMOD p] := by
  have hpos : 0 < b % p := Nat.pos_of_ne_zero (mt Nat.dvd_of_mod_eq_zero hdvd)
  have hlt : b % p < p := Nat.mod_lt b hp
  obtain ⟨y, -, hbezout, -, -⟩ := exists_extendedGcd hpos hp (by omega) (by omega)
  have hgcd : Nat.gcd (b % p) p = Nat.gcd b p := by
    rw [← Nat.gcd_rec, Nat.gcd_comm]
  have hresidue : (b : ℤ) ≡ (b % p : ℕ) [ZMOD p] := by
    rw [Int.natCast_mod]
    exact (Int.mod_modEq _ _).symm
  have hmultiple : y * p ≡ 0 [ZMOD p] := Int.modEq_zero_iff_dvd.mpr (dvd_mul_left _ _)
  calc
    b * (findRoot a b p : ℤ) ≡ (b % p : ℕ) * (a * bezout (b % p) p) [ZMOD p] :=
      hresidue.mul (findRoot_modEq hp hdvd)
    _ = a * (bezout (b % p) p * (b % p : ℕ) + 0) := by ring
    _ ≡ a * (bezout (b % p) p * (b % p : ℕ) + y * p) [ZMOD p] :=
      (Int.ModEq.refl _).mul ((Int.ModEq.refl _).add hmultiple.symm)
    _ = a * (Nat.gcd b p : ℕ) := by rw [hbezout, hgcd]

/-- A quotient modulo `p` is unique where `b` is prime to `p`. -/
theorem eq_of_mul_modEq {r s : ℕ} (hgcd : Nat.gcd b p = 1) (hr : r < p) (hs : s < p)
    (h : b * (r : ℤ) ≡ b * (s : ℤ) [ZMOD p]) : r = s := by
  have hnat : b * r ≡ b * s [MOD p] := by
    exact_mod_cast Int.natCast_modEq_iff.mp (by exact_mod_cast h)
  have hcancel : r ≡ s [MOD p] := Nat.ModEq.cancel_left_of_coprime (by rwa [Nat.gcd_comm]) hnat
  exact hcancel.eq_of_lt_of_lt hr hs

/-! ## The computation in words -/

/-- No check fails for coordinates and primes of 64 bits. -/
theorem rootInWords?_eq (ha : -2 ^ 63 ≤ a ∧ a < 2 ^ 63) (hb : b < 2 ^ 64) (hp : 1 ≤ p)
    (hp' : p < 2 ^ 64) : rootInWords? a b p = some (findRoot a b p) := by
  have hpos : (0 : ℤ) < p := by omega
  have hmod (x : ℤ) : modFloor? x p = some (x % p) := modFloor?_eq hpos (by omega) x
  have hp_word : signedWord? p = some (p : ℤ) := signedWord?_eq (by omega) (by omega)
  have hb_word : signedWord? b = some (b : ℤ) := signedWord?_eq (by omega) (by omega)
  have ha_word : signedWord? a = some a := signedWord?_eq (by omega) (by omega)
  have hresidue : (b : ℤ) % p = (b % p : ℕ) := (Int.natCast_mod b p).symm
  simp only [rootInWords?, hp_word, hb_word, ha_word, hmod, hresidue, Option.bind_eq_bind,
    Option.bind_some, Int.natCast_eq_zero, Option.pure_def, findRoot]
  split
  case isTrue => rfl
  case isFalse hne =>
    have hlt : b % p < p := Nat.mod_lt b hp
    obtain ⟨y, heuclid, -⟩ := exists_extendedGcd (n := b % p) (m := p) (by omega) hp (by omega) (by omega)
    have hword (x : ℤ) : unsignedWord? 128 (x % p) = some (x % p) :=
      unsignedWord?_emod (by omega) hp hp' x
    have hword' (x : ℤ) : unsignedWord? 64 (x % p) = some (x % p) :=
      unsignedWord?_emod (by omega) hp hp' x
    simp only [heuclid, Option.bind_some, hword, hword', unsignedWord?_emod_mul_emod hp hp']

/-- The root above a positive `p` of 64 bits, prime or not, is `p` exactly if `p` divides `b`.  Otherwise it is
smaller than `p` and `b` times the root is `a` times the greatest common divisor of `b` and `p`; where that
divisor is one, no other number below `p` is a quotient of `a` and `b`.  The computation in words finds it. -/
theorem findRoot_solves (ha : -2 ^ 63 ≤ a ∧ a < 2 ^ 63) (hb : b < 2 ^ 64) (hp : 1 ≤ p)
    (hp' : p < 2 ^ 64) :
    ∃ r, findRoot? a b p = some r ∧ rootInWords? a b p = some r ∧ (r = p ↔ p ∣ b) ∧
      (¬p ∣ b →
        r < p ∧ b * (r : ℤ) ≡ a * (Nat.gcd b p : ℕ) [ZMOD p] ∧
        (Nat.gcd b p = 1 → ∀ s < p, b * (s : ℤ) ≡ a [ZMOD p] ↔ s = r)) := by
  refine ⟨findRoot a b p, if_neg (by omega), rootInWords?_eq ha hb hp hp', findRoot_eq_prime_iff hp,
    fun hdvd => ⟨findRoot_lt hp hdvd, mul_findRoot_modEq hp hp' hdvd, ?_⟩⟩
  intro hgcd s hs
  have hroot : b * (findRoot a b p : ℤ) ≡ a [ZMOD p] := by
    simpa [hgcd] using mul_findRoot_modEq (a := a) hp hp' hdvd
  constructor
  · intro hquotient
    exact eq_of_mul_modEq hgcd hs (findRoot_lt hp hdvd) (hquotient.trans hroot.symm)
  · rintro rfl
    exact hroot

theorem findRoot_solves_sample :
    (∃ r, findRoot? (-1) 2 0xffffffffffffffc5 = some r ∧ rootInWords? (-1) 2 0xffffffffffffffc5 = some r ∧
      r = 0x7fffffffffffffe2 ∧
      ∀ s : ℕ, s < 0xffffffffffffffc5 →
        ((2 : ℕ) * (s : ℤ) ≡ -1 [ZMOD (0xffffffffffffffc5 : ℕ)] ↔ s = r)) ∧
    (∃ r, findRoot? (-7) 10 4 = some r ∧ r < 4 ∧
      (10 : ℕ) * (r : ℤ) ≡ -7 * (Nat.gcd 10 4 : ℕ) [ZMOD (4 : ℕ)]) := by
  constructor
  · obtain ⟨r, hr, hwords, -, hroot⟩ := findRoot_solves (a := -1) (b := 2) (p := 0xffffffffffffffc5)
      (by decide) (by decide) (by decide) (by decide)
    obtain ⟨-, -, hunique⟩ := hroot (by decide)
    have hquotients := hunique (by decide)
    refine ⟨r, hr, hwords, ?_, hquotients⟩
    exact ((hquotients _ (by decide)).mp (by decide)).symm
  · obtain ⟨r, hr, -, -, hroot⟩ := findRoot_solves (a := -7) (b := 10) (p := 4)
      (by decide) (by decide) (by decide) (by decide)
    obtain ⟨hlt, hcongruence, -⟩ := hroot (by decide)
    exact ⟨r, hr, hlt, hcongruence⟩

end SieveFilter.Relation
