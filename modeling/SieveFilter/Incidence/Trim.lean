import SieveFilter.Build
import SieveFilter.Incidence.Cluster
import SieveFilter.Incidence.Singleton

/-!
# Trimming the excess

More excess than is asked for makes the matrix larger than it needs to be.  Clusters are broken by the
deletion of one row each, those of the highest cost first; the removal of singletons then takes the rest of
the cluster.  Each round covers half of the distance, so that later rounds can choose among the clusters
that the removal has left.
-/

namespace SieveFilter.Incidence

/-- A count of 64 bits read as a signed number. -/
def signed (count : Nat) : Int :=
  Int.bmod count (Nat.pow 2 64)

/-- The representatives of clusters by falling cost; equal costs keep their order. -/
def ranked (cost : Cost) (extent : Extent) (clusters : List Cluster) : List Nat :=
  let scored := clusters.map fun c => (Decimal.orderKey (cost c extent), c.representative)
  (scored.mergeSort fun a b => b.1 ≤ a.1).map (·.2)

/-- Deletes rows in the given order while the excess is above the target. -/
def deleteUntil (target : Int) (table : Incidence) (deleted : Nat) : List Nat → Sweep
  | [] => ⟨table, deleted⟩
  | row :: rest =>
    if table.excess ≤ target then ⟨table, deleted⟩
    else deleteUntil target (table.delete row) (deleted + 1) rest

/-- Whether the excess is above the bound `keep` and its sum with the bound is too small for a signed word.
No sum is too large, since a row takes up twelve bytes and so there are far fewer than `2^62` rows. -/
def sumOverflows (table : Incidence) (keep : Nat) : Bool :=
  signed keep < table.excess && table.excess + signed keep < -(Nat.pow 2 63 : Int)

/-- The excess half of the way down to `keep`.  A sum that is too small is read modulo `2^64`. -/
def target (table : Incidence) (keep : Nat) : Int :=
  let sum := table.excess + signed keep
  let read := if table.sumOverflows keep then sum + Nat.pow 2 64 else sum
  read.tdiv 2

/-- What is said of a matrix and its clusters before a trimming. -/
def extentNotice (extent : Extent) (clusters : List Cluster) : Notice :=
  .extent extent.rows extent.weight clusters.length

/-- Brings the excess half of the way down to `keep`. -/
def trim (table : Incidence) (keep : Nat) (cost : Cost) : Deletion :=
  if table.excess ≤ signed keep then ⟨table, 0, []⟩
  else
    let clusters := table.clusters
    let extent := table.extent
    let trimmed := deleteUntil (table.target keep) table 0 (ranked cost extent clusters)
    ⟨trimmed.table, trimmed.deleted, [extentNotice extent clusters]⟩

/-- A trimming, if the run goes on after it: a build that traps sums breaks off at one that does not fit. -/
def trimIn (table : Incidence) (build : Build) (keep : Nat) (cost : Cost) : Run Incidence Nat :=
  if build.traps && table.sumOverflows keep then
    (Run.fail table .breakdown).after (extentNotice table.extent table.clusters)
  else
    let trimmed := table.trim keep cost
    (Run.done trimmed.table trimmed.deleted).afterAll trimmed.notices

/-- A table after rounds of trimming and removal of singletons, with the numbers of rows that were deleted
as singletons and to bring down the excess. -/
structure Pruning where
  table : Incidence
  singletonRows : Nat
  heavierRows : Nat
  rounds : Nat
  notices : List Notice

/-- One round: on the final pass, where the excess is exact, a trimming; then the removal of singletons. -/
def pruneRound (table : Incidence) (keep : Nat) (final : Bool) (cost : Cost) : Pruning :=
  let ⟨table, heavier, trimNotices⟩ := if final then table.trim keep cost else ⟨table, 0, []⟩
  let trimNotice := if heavier = 0 then [] else [.trimmed table.liveRows table.liveIdeals]
  let ⟨table, singletons, sweepNotices⟩ := table.removeSingletons
  let roundNotice := .pruneRound table.liveRows table.liveIdeals table.excess
  ⟨table, singletons, heavier, 1, trimNotices ++ trimNotice ++ sweepNotices ++ [roundNotice]⟩

/-- Deletions in an order bring back no row. -/
theorem liveRows_deleteUntil_le (target : Int) (table : Incidence) (deleted : Nat) (rows : List Nat) :
    (deleteUntil target table deleted rows).table.liveRows ≤ table.liveRows := by
  induction rows generalizing table deleted with
  | nil => exact Nat.le_refl _
  | cons row rest ih =>
    simp only [deleteUntil]
    split
    · exact Nat.le_refl _
    · exact Nat.le_trans (ih _ _) (by simp)

theorem liveRows_trim_le (table : Incidence) (keep : Nat) (cost : Cost) :
    (table.trim keep cost).table.liveRows ≤ table.liveRows := by
  simp only [trim]
  split
  · exact Nat.le_refl _
  · exact liveRows_deleteUntil_le _ _ _ _

theorem liveRows_pruneRound_le (table : Incidence) (keep : Nat) (final : Bool) (cost : Cost) :
    (table.pruneRound keep final cost).table.liveRows ≤ table.liveRows := by
  simp only [pruneRound]
  refine Nat.le_trans (liveRows_removeSingletons_le _) ?_
  split
  · exact liveRows_trim_le _ _ _
  · exact Nat.le_refl _

/-- Rounds until one of them leaves the number of used rows as it is. -/
def prune (table : Incidence) (keep : Nat) (final : Bool) (cost : Cost) : Pruning :=
  let rows := table.liveRows
  let round := table.pruneRound keep final cost
  if round.table.liveRows = rows then round
  else
    let rest := prune round.table keep final cost
    { table := rest.table
      singletonRows := round.singletonRows + rest.singletonRows
      heavierRows := round.heavierRows + rest.heavierRows
      rounds := round.rounds + rest.rounds
      notices := round.notices ++ rest.notices }
termination_by table.liveRows
decreasing_by
  have le : round.table.liveRows ≤ table.liveRows := liveRows_pruneRound_le table keep final cost
  exact Nat.lt_of_le_of_ne le (by assumption)

/-- What the rounds have made of a table, and the notices up to then, when the sum of one of them is out of
range. -/
def overflow? (table : Incidence) (keep : Nat) (final : Bool) (cost : Cost) :
    Option (Incidence × List Notice) :=
  if final && table.sumOverflows keep then some (table, [extentNotice table.extent table.clusters])
  else
    let round := table.pruneRound keep final cost
    if round.table.liveRows = table.liveRows then none
    else
      (overflow? round.table keep final cost).map fun (table, notices) =>
        (table, round.notices ++ notices)
termination_by table.liveRows
decreasing_by
  have le : round.table.liveRows ≤ table.liveRows := liveRows_pruneRound_le table keep final cost
  exact Nat.lt_of_le_of_ne le (by assumption)

/-- A pruning, if the run goes on after it: a build that traps sums breaks off in the round of one that does not
fit. -/
def pruneIn (table : Incidence) (build : Build) (keep : Nat) (final : Bool) (cost : Cost) :
    Run Incidence Pruning :=
  let overflow := if build.traps then table.overflow? keep final cost else none
  match overflow with
  | some (table, notices) => (Run.fail table .breakdown).afterAll notices
  | none =>
    let pruned := table.prune keep final cost
    (Run.done pruned.table pruned).afterAll pruned.notices

end SieveFilter.Incidence
