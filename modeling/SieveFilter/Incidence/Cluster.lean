import SieveFilter.Cost
import SieveFilter.Incidence

/-!
# Clusters of linked rows

Two used rows are linked when they share an ideal that has exactly two references.  The other row of such
an ideal is found without an adjacency list: the sum of the two row numbers is kept for the slot, and one
row is the sum less the other.  Clusters are the connected components of the links.
-/

namespace SieveFilter.Incidence

/-- For each slot with two references, the sum of the numbers of the rows that refer to it. -/
def pairSums (table : Incidence) : Array Nat :=
  let addRow (row : Nat) (sums : Array Nat) (slot : Nat) : Array Nat :=
    if table.count slot = 2 then sums.modify slot (· + row) else sums
  table.usedRows.foldl (fun sums row => (table.list row).foldl (addRow row) sums)
    (Array.replicate table.roster.size 0)

/-- The number and the total list length of the used rows. -/
def extent (table : Incidence) : Extent :=
  table.usedRows.foldl (fun e row => ⟨e.rows + 1, e.weight + (table.list row).length⟩) ⟨0, 0⟩

/-- The other row of a slot with two references, one of them from `row`. -/
def partner (sums : Array Nat) (slot row : Nat) : Nat :=
  sums.getD slot 0 - row

/-- The rows that share an ideal of two references with a row. -/
def links (table : Incidence) (sums : Array Nat) (row : Nat) : List Nat :=
  ((table.list row).filter (table.count · == 2)).map (partner sums · row)

/-- For each used row and each slot of its list with two references, the row, the slot and the partner. -/
def partners (table : Incidence) : List (Nat × Nat × Nat) :=
  let sums := table.pairSums
  table.usedRows.flatMap fun row =>
    ((table.list row).filter (table.count · == 2)).map fun slot => (row, slot, partner sums slot row)

/-- The rows still to be seen, and the rows seen but not yet followed. -/
structure Frontier where
  unseen : Array Bool
  pending : List Nat

namespace Frontier

/-- Sees a row, unless it was seen before. -/
def see (frontier : Frontier) (row : Nat) : Frontier :=
  let ⟨unseen, pending⟩ := frontier
  if unseen.getD row false then ⟨unseen.setIfInBounds row false, row :: pending⟩
  else ⟨unseen, pending⟩

/-- Every row costs a walk at most two units: one until it is seen, one until it is followed. -/
def work (frontier : Frontier) : Nat :=
  2 * frontier.unseen.count true + frontier.pending.length

theorem work_see_le (frontier : Frontier) (row : Nat) :
    (frontier.see row).work ≤ frontier.work := by
  obtain ⟨unseen, pending⟩ := frontier
  simp only [see]
  split
  next h =>
    have bound : row < unseen.size := by
      by_cases bound : row < unseen.size
      · exact bound
      · simp [Array.getD, bound] at h
    have here : unseen[row] = true := by
      simpa [Array.getD, bound] using h
    have positive : 0 < unseen.count true :=
      Array.count_pos_iff.mpr (here ▸ Array.getElem_mem bound)
    simp only [work, Array.setIfInBounds, bound, dif_pos, Array.count_set, here]
    simp
    omega
  next => exact Nat.le_refl _

theorem work_foldl_see_le (frontier : Frontier) (rows : List Nat) :
    (rows.foldl see frontier).work ≤ frontier.work := by
  induction rows generalizing frontier with
  | nil => exact Nat.le_refl _
  | cons row rest ih => exact Nat.le_trans (ih _) (work_see_le frontier row)

end Frontier

/-- Follows the pending rows and all rows that can be reached from them through unseen rows.  The value is
the unseen rows left and the rows followed, the last one first, in front of those in `followed`. -/
def follow
    (links : Nat → List Nat) (frontier : Frontier) (followed : List Nat) :
    Array Bool × List Nat :=
  match frontier with
  | ⟨unseen, []⟩ => (unseen, followed)
  | ⟨unseen, row :: pending⟩ =>
    follow links ((links row).foldl Frontier.see ⟨unseen, pending⟩) (row :: followed)
termination_by frontier.work
decreasing_by
  refine Nat.lt_of_le_of_lt (Frontier.work_foldl_see_le _ _) ?_
  simp [Frontier.work]

/-- The unseen rows, and the components found so far, the last one first. -/
structure Partition where
  unseen : Array Bool
  components : List (Nat × List Nat)

/-- Finds the component of a row, unless the row was seen before. -/
def Partition.step (links : Nat → List Nat) (partition : Partition) (row : Nat) : Partition :=
  let ⟨unseen, components⟩ := partition
  if unseen.getD row false then
    let (unseen, followed) := follow links (Frontier.see ⟨unseen, []⟩ row) []
    ⟨unseen, (row, followed) :: components⟩
  else ⟨unseen, components⟩

/-- The connected components of the rows marked in `marks`: the least row of each and all its rows, in
increasing order of the least rows. -/
def components (links : Nat → List Nat) (marks : Array Bool) : List (Nat × List Nat) :=
  let rows := List.range marks.size
  (rows.foldl (Partition.step links) ⟨marks, []⟩).components.reverse

/-- The clusters of the used rows, in increasing order of their least rows. -/
def clusters (table : Incidence) : List Cluster :=
  let sums := table.pairSums
  (components (table.links sums) table.used).map fun (representative, rows) =>
    let weight := rows.foldl (fun entries row => entries + (table.list row).length) 0
    ⟨representative, rows.length, weight⟩

end SieveFilter.Incidence
