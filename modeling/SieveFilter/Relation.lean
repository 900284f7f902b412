import SieveFilter.Ideal

/-!
# Relations

A relation is a pair `(a, b)` whose two norms factor over known primes.  It is *free* when `b = 0`; then
`a` is, up to sign, a prime, and the relation consists of the ideals above it.  In the matrix over the
field of two elements only the ideals with an odd exponent count.
-/

namespace SieveFilter

/-- A prime of the rational norm and its exponent. -/
structure RationalFactor where
  p : Nat
  e : Nat
  deriving DecidableEq, Repr

/-- An algebraic ideal, given by prime and root, and its exponent in the algebraic norm. -/
structure AlgebraicFactor where
  p : Nat
  r : Nat
  e : Nat
  deriving DecidableEq, Repr

/-- A pair `(a, b)` with the factors of its two norms. -/
structure Relation where
  a : Int
  b : Nat
  rational : List RationalFactor
  algebraic : List AlgebraicFactor
  deriving DecidableEq, Repr

/-- The least primes of each side whose ideals are taken into account. -/
structure Bounds where
  rational : Nat
  algebraic : Nat
  deriving DecidableEq, Repr

namespace Bounds

/-- The bounds that admit every ideal. -/
def none : Bounds := ⟨0, 0⟩

/-- Bounds admit every ideal when both of them are zero. -/
def admitAll (bounds : Bounds) : Bool :=
  bounds.rational == 0 && bounds.algebraic == 0

end Bounds

namespace Relation

/-- A relation is free when its second coordinate is zero. -/
def isFree (relation : Relation) : Bool :=
  relation.b == 0

/-- The factors of odd exponent, each with exponent one. -/
def reduced (relation : Relation) : Relation :=
  { relation with
    rational := (relation.rational.filter (·.e % 2 == 1)).map ({ · with e := 1 })
    algebraic := (relation.algebraic.filter (·.e % 2 == 1)).map ({ · with e := 1 }) }

/-- The ideals above primes at or above the bounds, those of the rational side first.  All ideals of a
free relation lie above the prime `|a|`. -/
def idealsAbove (relation : Relation) (bounds : Bounds) : List Ideal :=
  if relation.isFree then
    let p := relation.a.natAbs
    (if bounds.rational ≤ p then [Ideal.rational p] else []) ++
      (if bounds.algebraic ≤ p then relation.algebraic.map fun f => ⟨p, f.r⟩ else [])
  else
    (relation.rational.filter (bounds.rational ≤ ·.p)).map (fun f => Ideal.rational f.p) ++
      (relation.algebraic.filter (bounds.algebraic ≤ ·.p)).map (fun f => ⟨f.p, f.r⟩)

def ideals (relation : Relation) : List Ideal :=
  relation.idealsAbove Bounds.none

/-- The relation as it enters the matrix: free relations as they stand, others with reduced exponents. -/
def forMatrix (relation : Relation) : Relation :=
  if relation.isFree then relation else relation.reduced

end Relation

end SieveFilter
