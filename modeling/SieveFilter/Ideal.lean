import SieveFilter.Text.Numeral

/-!
# Prime ideals

A prime ideal of degree one of a number field sieve, named by its prime and its root.  The ideals of the
rational side share one root, which no algebraic ideal has, so both sides live in one type.
-/

namespace SieveFilter

open Text (Numeral.hexText)

/-- A prime ideal, with the prime `p` it lies above and its root `r` modulo `p`. -/
structure Ideal where
  p : Nat
  r : Nat
  deriving DecidableEq, Repr

namespace Ideal

/-- The root of every rational ideal; the roots of an algebraic ideal are at most its prime. -/
def rationalRoot : Nat := Nat.pow 2 64 - 2

def rational (p : Nat) : Ideal := ⟨p, rationalRoot⟩

/-- Rational ideals are recognised by their root. -/
def isRational (ideal : Ideal) : Bool :=
  ideal.r == rationalRoot

/-- An ideal is shown as its prime and root in hexadecimal, with `rat` for the rational root. -/
def text (ideal : Ideal) : String :=
  let root := if ideal.isRational then "rat" else Numeral.hexText ideal.r
  s!"({Numeral.hexText ideal.p},{root})"

/-- Ideals are ordered by prime, then by root. -/
instance : Ord Ideal where
  compare := compareLex (compareOn Ideal.p) (compareOn Ideal.r)

instance : Std.TransOrd Ideal :=
  inferInstanceAs (Std.TransCmp (compareLex (compareOn Ideal.p) (compareOn Ideal.r)))

instance : Std.LawfulEqOrd Ideal where
  eq_of_compare {a b} h := by
    have h : (compare a.p b.p).then (compare a.r b.r) = .eq := h
    rw [Ordering.then_eq_eq, Nat.compare_eq_eq, Nat.compare_eq_eq] at h
    cases a
    cases b
    simp_all

end Ideal

end SieveFilter
