import SieveFilter.Cost
import SieveFilter.Decimal.Scientific
import SieveFilter.Json.Record
import SieveFilter.Relation

/-!
# Reports

The outcome of a complete run, its summary for calling scripts, and the JSON forms of the records that are
kept in files.
-/

namespace SieveFilter

/-- The size of the matrix that a run has written, its excess, and how it was made. -/
structure Report where
  rows : Nat
  columns : Nat
  excess : Int
  weight : Nat
  passes : Nat
  raw : Bool
  deriving DecidableEq, Repr

namespace Report

/-- The lines of the summary.  The weight is left out of raw runs, which have none. -/
def summary (report : Report) : List String :=
  let product :=
    Decimal.scientific (Decimal.ofCount report.weight * Decimal.ofCount report.rows)
  let weight := if report.raw then [] else [s!"WEIGHT: {report.weight} WEIGHT*NROWS={product}"]
  weight ++ [s!"EXCESS: {report.excess}"]

def toJson (report : Report) : Json :=
  .record [
    ("rows", .ofNat report.rows),
    ("columns", .ofNat report.columns),
    ("excess", .ofInt report.excess),
    ("weight", .ofNat report.weight),
    ("passes", .ofNat report.passes),
    ("raw", .bool report.raw)]

def ofJson? (json : Json) : Option Report := do
  match ← json.fields? ["rows", "columns", "excess", "weight", "passes", "raw"] with
  | [rows, columns, excess, weight, passes, raw] =>
    let rows ← rows.word?
    let columns ← columns.word?
    let excess ← excess.signed?
    let weight ← weight.word?
    let passes ← passes.word?
    let raw ← raw.bool?
    return { rows, columns, excess, weight, passes, raw }
  | _ => none

end Report

def Ideal.toJson (ideal : Ideal) : Json :=
  .record [("p", .ofNat ideal.p), ("r", .ofNat ideal.r)]

def Ideal.ofJson? (json : Json) : Option Ideal := do
  match ← json.fields? ["p", "r"] with
  | [p, r] => return ⟨← p.word?, ← r.word?⟩
  | _ => none

def Bounds.toJson (bounds : Bounds) : Json :=
  .record [("min_rational", .ofNat bounds.rational), ("min_algebraic", .ofNat bounds.algebraic)]

def Bounds.ofJson? (json : Json) : Option Bounds := do
  match ← json.fields? ["min_rational", "min_algebraic"] with
  | [rational, algebraic] => return ⟨← rational.word?, ← algebraic.word?⟩
  | _ => none

/-- The policy that a choice names, its words joined by underscores. -/
def CostPolicy.ofJson? (json : Json) : Option CostPolicy :=
  json.choice?.bind (CostPolicy.ofName? "_")

end SieveFilter
