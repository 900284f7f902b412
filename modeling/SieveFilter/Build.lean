/-!
# Builds and machines

What the outcome of a run depends on besides its input.  One program can be built so that it tests its
assertions, and so that sums of machine words which do not fit break the run off; otherwise such sums are taken
modulo the number of words.  The machine decides how much storage there is.
-/

namespace SieveFilter

/-- Whether a build tests assertions, and whether it traps sums that do not fit a word. -/
structure Build where
  asserts : Bool
  traps : Bool
  deriving DecidableEq, Repr

namespace Build

/-- The build in which everything is tested. -/
def checked : Build := ⟨true, true⟩

/-- The build in which nothing is tested. -/
def unchecked : Build := ⟨false, false⟩

/-- The number of values of a word. -/
def words : Nat := Nat.pow 2 64

/-- The sum of two words, if the run goes on after it. -/
def sum? (build : Build) (a b : Nat) : Option Nat :=
  if a + b < words then some (a + b)
  else if build.traps then none
  else some ((a + b) % words)

/-- A sum that fits is exact in every build. -/
theorem sum?_of_lt (build : Build) {a b : Nat} (h : a + b < words) : build.sum? a b = some (a + b) :=
  if_pos h

end Build

/-- A build, and whether there is storage for a table of a number of rows and a number of expected ideals. -/
structure Machine where
  build : Build
  holds : Nat → Nat → Bool

namespace Machine

/-- The bytes of a row beside its bit: the block and the first cell of its list, and whether it has one. -/
def rowBytes : Nat := 12

/-- The bytes of an expected ideal: its prime, its root, and a hash of both. -/
def idealBytes : Nat := 24

/-- The machine whose storage is bounded by its addresses only. -/
def addressed (build : Build) : Machine where
  build
  holds rows ideals :=
    decide (rows * rowBytes < Nat.pow 2 63) && decide (ideals * idealBytes < Nat.pow 2 63)

end Machine

end SieveFilter
