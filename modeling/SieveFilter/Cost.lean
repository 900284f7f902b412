import SieveFilter.Decimal.Binary

/-!
# The cost of clusters

A cluster of rows is given up to bring the excess down; the cost says which cluster goes first.  Taking
`n` rows of total weight `w` out of a matrix of `N` rows and weight `W` makes `N * W` smaller by about
`w * N + n * W`.
-/

namespace SieveFilter

/-- The size of the whole matrix of used rows. -/
structure Extent where
  rows : Nat
  weight : Nat
  deriving DecidableEq, Repr

/-- The size of a cluster of rows, and its row of least number. -/
structure Cluster where
  representative : Nat
  rows : Nat
  weight : Nat
  deriving DecidableEq, Repr

/-- The cost of a cluster within a matrix, as the bits of a floating-point number; clusters of higher cost are
given up first. -/
abbrev Cost := Cluster → Extent → UInt64

namespace Cost

/-- The share of the rows that the cluster has. -/
def rowShare (cluster : Cluster) (extent : Extent) : Float :=
  Decimal.ofCount cluster.rows / Decimal.ofCount extent.rows

/-- The share of the weight that the cluster has; zero in a matrix without weight. -/
def weightShare (cluster : Cluster) (extent : Extent) : Float :=
  if extent.weight = 0 then 0
  else Decimal.ofCount cluster.weight / Decimal.ofCount extent.weight

def rowFraction : Cost := fun cluster extent =>
  (rowShare cluster extent).toBits

def weightFraction : Cost := fun cluster extent =>
  (weightShare cluster extent).toBits

/-- The sum of the shares of weight and rows. -/
def blend : Cost := fun cluster extent =>
  (weightShare cluster extent + rowShare cluster extent).toBits

end Cost

/-- The costs that can be chosen by name. -/
inductive CostPolicy where
  | rowFraction
  | weightFraction
  | blend
  deriving DecidableEq, Repr

namespace CostPolicy

def all : List CostPolicy := [rowFraction, weightFraction, blend]

def words : CostPolicy → List String
  | rowFraction => ["row", "fraction"]
  | weightFraction => ["weight", "fraction"]
  | blend => ["blend"]

/-- The name of a policy with a separator between its words. -/
def name (separator : String) (policy : CostPolicy) : String :=
  separator.intercalate policy.words

def ofName? (separator name : String) : Option CostPolicy :=
  all.find? (·.name separator == name)

def cost : CostPolicy → Cost
  | rowFraction => Cost.rowFraction
  | weightFraction => Cost.weightFraction
  | blend => Cost.blend

end CostPolicy

end SieveFilter
