/-!
# Roots of algebraic ideals

The root of the ideal above `p` that divides `a - bα` is the quotient `a / b` modulo `p`, or `p` itself,
for the point at infinity, when `p` divides `b`.  The inverse of `b` comes from the coefficients of the
extended Euclidean algorithm, so the root is determined even when `p` is composite.
-/

namespace SieveFilter.Relation

/-- The loop of the extended Euclidean algorithm on the remainders `r₁` and `r₀`, with `s₁` and `s₀` the
multipliers that express them through the starting number.  Its value is the multiplier of the greatest
common divisor. -/
def bezoutLoop (r₁ r₀ : Nat) (s₁ s₀ : Int) : Int :=
  match r₀ with
  | 0 => s₁
  | r + 1 => bezoutLoop (r + 1) (r₁ % (r + 1)) s₀ (s₁ - (r₁ / (r + 1) : Nat) * s₀)
termination_by r₀
decreasing_by exact Nat.mod_lt _ (Nat.succ_pos r)

/-- The multiplier `x` of `n` in `gcd n m = x * n + y * m` that the Euclidean algorithm finds. -/
def bezout (n m : Nat) : Int :=
  bezoutLoop n m 1 0

/-- The root of the ideal above `p` that divides `a - bα`. -/
def findRoot (a : Int) (b p : Nat) : Nat :=
  if b % p = 0 then p
  else (a % p * (bezout (b % p) p % p) % p).toNat

/-- The root above `p`, for a positive `p`; there is no remainder modulo zero. -/
def findRoot? (a : Int) (b p : Nat) : Option Nat :=
  if p = 0 then none else some (findRoot a b p)

end SieveFilter.Relation
