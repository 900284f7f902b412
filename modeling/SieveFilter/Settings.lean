import SieveFilter.Arena
import SieveFilter.Cost
import SieveFilter.Estimate

/-!
# Settings

What a run is told: the number of relations, the bounds of the first pass, the excess to ask for and to
keep, and the sizes that its storage starts with.
-/

namespace SieveFilter

structure Settings where
  /-- The number of relations in the input, which must hold exactly as many. -/
  rows : Nat
  /-- The expected number of ideals; it is estimated where it is not given. -/
  expectedIdeals : Option Nat
  /-- The least rational prime of the first pass, in place of the rational factor base bound. -/
  leastRational : Option Nat
  /-- The least algebraic prime of the first pass, in place of the algebraic factor base bound. -/
  leastAlgebraic : Option Nat
  /-- The factor base bound of the rational side. -/
  rationalBase : Nat
  /-- The factor base bound of the algebraic side. -/
  algebraicBase : Nat
  /-- The bits of the large prime bound of the rational side. -/
  rationalBits : Nat
  /-- The bits of the large prime bound of the algebraic side. -/
  algebraicBits : Nat
  /-- The least excess that the input of the final pass must have. -/
  requiredExcess : Nat
  /-- The excess above which rows are given up. -/
  keptExcess : Nat
  /-- Surviving relations are copied in place of a matrix. -/
  raw : Bool
  /-- The cost that decides which rows are given up first. -/
  costPolicy : CostPolicy
  /-- The cells of a block of lists. -/
  blockCapacity : Nat
  /-- The name of the least severe level of notices to show. -/
  logLevel : String
  deriving DecidableEq, Repr

namespace Settings

/-- The settings where nothing else is said. -/
def default : Settings where
  rows := 0
  expectedIdeals := none
  leastRational := none
  leastAlgebraic := none
  rationalBase := 0
  algebraicBase := 0
  rationalBits := 24
  algebraicBits := 24
  requiredExcess := 1
  keptExcess := 160
  raw := false
  costPolicy := .rowFraction
  blockCapacity := Arena.defaultCapacity
  logLevel := "info"

instance : Inhabited Settings := ⟨default⟩

/-- The bounds of the first pass. -/
def initialBounds (settings : Settings) : Bounds where
  rational := settings.leastRational.getD settings.rationalBase
  algebraic := settings.leastAlgebraic.getD settings.algebraicBase

/-- The number of ideals that the roster is laid out for. -/
def rosterCapacity (settings : Settings) : Nat :=
  let bounds := settings.initialBounds
  settings.expectedIdeals.getD
    (Estimate.ideals settings.rationalBits settings.algebraicBits bounds.rational bounds.algebraic)

end Settings

end SieveFilter
