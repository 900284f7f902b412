import SieveFilter.Proofs.Incidence.Decrements
import SieveFilter.Proofs.Incidence.Recounts
import SieveFilter.Proofs.Incidence.Upkeep
import Mathlib.Algebra.BigOperators.Ring.Finset

/-!
# Sequences of operations

Whatever is done to a table, its counts agree with its lists, and nothing that it counts is decremented below
zero.  One operation keeps a table intact, so a whole sequence does.  A deletion drops the references of a row
of an intact table, which has counted each of them.
-/

namespace SieveFilter.Incidence

/-! ## Operations -/

/-- What can be done to a table.  A reloading gives back all lists, empties the roster and loads the table
from the events of a stream. -/
inductive Operation where
  | register (row : ℕ) (ideals : List Ideal)
  | delete (row : ℕ)
  | sweep
  | removeSingletons
  | trim (keep : ℕ) (cost : Cost)
  | prune (keep : ℕ) (final : Bool) (cost : Cost)
  | reload (build : Build) (bounds : Bounds) (events : List Event)

/-- The table that is left after deletions. -/
def Deletion.left (deletion : Deletion) : Incidence :=
  deletion.table

theorem Deletion.left_eq (deletion : Deletion) : deletion.left = deletion.table := rfl

/-- The table that an operation leaves, whether or not it succeeds. -/
def apply (table : Incidence) : Operation → Incidence
  | .register row ideals => (table.register row ideals).state
  | .delete row => table.delete row
  | .sweep => table.sweep.table
  | .removeSingletons => table.removeSingletons.left
  | .trim keep cost => (table.trim keep cost).left
  | .prune keep final cost => (table.prune keep final cost).table
  | .reload build bounds events => (table.releaseLists.resetRoster.load build bounds events).state

def execute (table : Incidence) (operations : List Operation) : Incidence :=
  operations.foldl apply table

namespace Operation

/-- Rows are registered that are used and have no list, and used rows are deleted. -/
def Allowed (table : Incidence) : Operation → Prop
  | register row _ => table.isUsed row = true ∧ table.lists.getD row none = none
  | delete row => table.isUsed row = true
  | _ => True

/-- The list entries that an operation offers for registration. -/
def entries (table : Incidence) : Operation → ℕ
  | register _ ideals => ideals.length
  | reload _ bounds events => table.releaseLists.resetRoster.offered bounds events
  | _ => 0

/-- No ideal is listed twice for one row.  The relations of a stream never do so. -/
def Distinct : Operation → Prop
  | register _ ideals => ideals.Nodup
  | _ => True

instance (table : Incidence) (operation : Operation) : Decidable (operation.Allowed table) :=
  match operation with
  | register .. => inferInstanceAs (Decidable (_ ∧ _))
  | delete _ => inferInstanceAs (Decidable (_ = _))
  | sweep | removeSingletons | trim .. | prune .. | reload .. => .isTrue trivial

end Operation

/-- Every operation of a sequence is allowed when its turn comes. -/
def Permitted : Incidence → List Operation → Prop
  | _, [] => True
  | table, operation :: rest => operation.Allowed table ∧ Permitted (table.apply operation) rest

/-- The list entries that a sequence of operations offers for registration. -/
def entriesOf : Incidence → List Operation → ℕ
  | _, [] => 0
  | table, operation :: rest => operation.entries table + entriesOf (table.apply operation) rest

/-- The operation, begun on `table`, deletes `row` from what the table has become by then. -/
inductive Drops (table : Incidence) : Operation → Incidence → ℕ → Prop
  | delete (row : ℕ) : Drops table (.delete row) table row
  | sweep {mid : Incidence} {row : ℕ} (h : DropsInSweep table (List.range table.size) mid row) :
      Drops table .sweep mid row
  | removeSingletons {mid : Incidence} {row : ℕ} (h : DropsSingleton table mid row) :
      Drops table .removeSingletons mid row
  | trim {mid : Incidence} {row keep : ℕ} {cost : Cost} (h : DropsInTrim keep cost table mid row) :
      Drops table (.trim keep cost) mid row
  | prune {mid : Incidence} {row keep : ℕ} {final : Bool} {cost : Cost}
      (h : DropsInPrune keep final cost table mid row) : Drops table (.prune keep final cost) mid row

instance decidablePermitted :
    (table : Incidence) → (operations : List Operation) → Decidable (Permitted table operations)
  | _, [] => .isTrue trivial
  | table, operation :: rest =>
    have := decidablePermitted (table.apply operation) rest
    inferInstanceAs (Decidable (_ ∧ _))

section

variable {distinct : Prop} {table : Incidence}

theorem Drops.droppable {operation : Operation} {mid : Incidence} {row : ℕ}
    (h : Drops table operation mid row) (hconsistent : table.Consistent)
    (hallowed : operation.Allowed table) : Droppable mid row := by
  have hreached : Deletes table mid ∧ row ∈ mid.usedSet := by
    cases h with
    | delete => exact ⟨.refl, mem_usedSet.mpr hallowed⟩
    | sweep h => exact ⟨h.peels.1.deletes, h.peels.2.1⟩
    | removeSingletons h => exact ⟨h.peels.1.deletes, h.peels.2.1⟩
    | trim h => exact h.reached hconsistent
    | prune h => exact h.reached hconsistent
  exact (hreached.1.remainder hconsistent).consistent.droppable hreached.2

/-- What an operation leaves of an intact table is intact again. -/
structure Keeps (distinct : Prop) (entries : ℕ) (before after : Incidence) : Prop where
  intact : after.Intact distinct
  capacity_eq : after.arena.capacity = before.arena.capacity
  size_le : after.roster.size ≤ before.roster.size + entries

theorem Intact.keeps_of_deletes (h : table.Intact distinct) {after : Incidence}
    (hdeletes : Deletes table after) : Keeps distinct 0 table after := by
  have hremainder := hdeletes.remainder h.consistent
  constructor
  · exact h.deletes hdeletes
  · rw [hremainder.arena_eq]
  · rw [Roster.size, hremainder.ideals_eq]
    exact Nat.le_refl _

theorem Intact.keeps_apply (h : table.Intact distinct) (operation : Operation)
    (hallowed : operation.Allowed table) (hdistinct : distinct → operation.Distinct)
    (hlaid : table.arena.capacity ≤ Arena.maxCapacity)
    (hfew : table.roster.size + operation.entries table ≤ Arena.sentinel) :
    Keeps distinct (operation.entries table) table (table.apply operation) := by
  cases operation with
  | register row ideals =>
    obtain ⟨hintact, hfills, -⟩ :=
      h.register (mem_usedSet.mpr hallowed.1) hallowed.2 hdistinct hlaid hfew
    exact ⟨hintact, hfills.capacity_eq, hfills.size_le⟩
  | delete row => exact h.keeps_of_deletes (.single ⟨row, mem_usedSet.mpr hallowed, rfl⟩)
  | sweep => exact h.keeps_of_deletes (peels_sweep table).deletes
  | removeSingletons => exact h.keeps_of_deletes (peels_removeSingletons table).deletes
  | trim keep cost =>
    change Keeps distinct 0 table (table.trim keep cost).left
    rw [Deletion.left_eq]
    exact h.keeps_of_deletes (h.consistent.deletes_trim keep cost)
  | prune keep final cost => exact h.keeps_of_deletes (h.consistent.deletes_prune keep final cost)
  | reload build bounds events =>
    have hready := h.consistent.ready_released
    have hoffered : table.releaseLists.resetRoster.offered bounds events ≤ Arena.sentinel :=
      (Nat.le_add_left _ _).trans hfew
    obtain ⟨hintact, hfills⟩ := hready.intact_load distinct build bounds events hlaid hoffered
    refine ⟨hintact, hfills.capacity_eq, ?_⟩
    refine hfills.size_le.trans ?_
    rw [hready.roster_size, Nat.zero_add]
    exact Nat.le_add_left _ _

/-- Every row that an operation takes out of use is deleted on the way. -/
theorem Intact.exists_drops (h : table.Intact distinct) {operation : Operation} {row : ℕ}
    (hallowed : operation.Allowed table) (hdistinct : distinct → operation.Distinct)
    (hlaid : table.arena.capacity ≤ Arena.maxCapacity)
    (hfew : table.roster.size + operation.entries table ≤ Arena.sentinel)
    (hrow : row ∈ table.usedSet) (hlost : row ∉ (table.apply operation).usedSet) :
    ∃ mid, Drops table operation mid row := by
  cases operation with
  | register other ideals =>
    obtain ⟨-, hfills, -⟩ :=
      h.register (mem_usedSet.mpr hallowed.1) hallowed.2 hdistinct hlaid hfew
    rw [usedSet, apply, hfills.used_eq] at hlost
    exact absurd hrow hlost
  | delete other =>
    have heq := eq_of_notMem_delete hrow hlost
    exact ⟨table, heq ▸ .delete row⟩
  | sweep =>
    obtain ⟨mid, hmid⟩ := exists_dropsInSweep hrow hlost
    exact ⟨mid, .sweep hmid⟩
  | removeSingletons =>
    obtain ⟨mid, hmid⟩ := exists_dropsSingleton hrow hlost
    exact ⟨mid, .removeSingletons hmid⟩
  | trim keep cost =>
    change row ∉ (table.trim keep cost).left.usedSet at hlost
    rw [Deletion.left_eq] at hlost
    obtain ⟨mid, hmid⟩ := exists_dropsInTrim hrow hlost
    exact ⟨mid, .trim hmid⟩
  | prune keep final cost =>
    obtain ⟨mid, hmid⟩ := exists_dropsInPrune hrow hlost
    exact ⟨mid, .prune hmid⟩
  | reload build bounds events =>
    obtain ⟨-, hfills⟩ := h.consistent.ready_released.intact_load distinct build bounds events
      hlaid ((Nat.le_add_left _ _).trans hfew)
    rw [usedSet, apply, hfills.used_eq] at hlost
    exact absurd hrow hlost

/-- A permitted sequence of operations keeps a table intact. -/
theorem Intact.keeps_execute (operations : List Operation) (h : table.Intact distinct)
    (hpermitted : Permitted table operations)
    (hdistinct : distinct → ∀ operation ∈ operations, operation.Distinct)
    (hlaid : table.arena.capacity ≤ Arena.maxCapacity)
    (hfew : table.roster.size + entriesOf table operations ≤ Arena.sentinel) :
    Keeps distinct (entriesOf table operations) table (table.execute operations) := by
  induction operations generalizing table with
  | nil => exact ⟨h, rfl, Nat.le_refl _⟩
  | cons operation rest ih =>
    rw [entriesOf] at hfew ⊢
    obtain ⟨hallowed, hrest⟩ := hpermitted
    obtain ⟨hintact, hcapacity, hsize⟩ := h.keeps_apply operation hallowed
      (fun hall => hdistinct hall operation List.mem_cons_self) hlaid (by omega)
    obtain ⟨hlast, hcapacityLast, hsizeLast⟩ := ih hintact hrest
      (fun hall other hother => hdistinct hall other (List.mem_cons_of_mem operation hother))
      (hcapacity ▸ hlaid) (by omega)
    exact ⟨hlast, hcapacityLast.trans hcapacity, hsizeLast.trans (by omega)⟩

/-- The operations before one of a permitted sequence are permitted, and so is that one after them. -/
theorem Permitted.split {before after : List Operation} {operation : Operation}
    (h : Permitted table (before ++ operation :: after)) :
    Permitted table before ∧ operation.Allowed (table.execute before) := by
  induction before generalizing table with
  | nil => exact ⟨trivial, h.1⟩
  | cons head rest ih =>
    obtain ⟨hrest, hallowed⟩ := ih h.2
    exact ⟨⟨h.1, hrest⟩, hallowed⟩

theorem entriesOf_append (table : Incidence) (before after : List Operation) :
    entriesOf table (before ++ after) =
      entriesOf table before + entriesOf (table.execute before) after := by
  induction before generalizing table with
  | nil => exact (Nat.zero_add _).symm
  | cons head rest ih =>
    have hrest := ih (table.apply head)
    simp only [List.cons_append, entriesOf]
    rw [hrest, Nat.add_assoc]
    rfl

end

/-- Every sequence of operations on a new table keeps its counts consistent: each slot counts its occurrences
in the lists of the used rows, which are the rows that refer to it unless one of them was registered with an
ideal twice; the table knows the number of slots with a positive count and the number of used rows; no
deletion on the way decrements one of these numbers below zero, and every row that goes out of use is deleted
on the way. -/
theorem execute_consistent (rows blockCapacity : ℕ) (operations : List Operation)
    (hcapacity : blockCapacity ≤ 2 ^ 32)
    (hpermitted : Permitted (new rows blockCapacity) operations)
    (hentries : entriesOf (new rows blockCapacity) operations < 2 ^ 31) :
    let table := (new rows blockCapacity).execute operations
    (∀ slot, table.count slot = ∑ row ∈ table.usedSet, ((table.list row).count slot : ℤ)) ∧
      table.liveIdeals = table.roster.liveSlots.card ∧
      table.liveRows = table.usedSet.card ∧
      table.isConsistent = true ∧
      ((∀ operation ∈ operations, operation.Distinct) → ∀ slot,
        table.count slot = (table.usedSet.filter fun row => slot ∈ table.list row).card) ∧
      ∀ before operation after, operations = before ++ operation :: after →
        let earlier := (new rows blockCapacity).execute before
        (∀ mid row, Drops earlier operation mid row → Droppable mid row) ∧
          ∀ row ∈ earlier.usedSet, row ∉ (earlier.apply operation).usedSet →
            ∃ mid, Drops earlier operation mid row := by
  have hlaid : (new rows blockCapacity).arena.capacity ≤ Arena.maxCapacity :=
    (max_le hcapacity (by decide)).trans (by decide)
  have hnew (distinct : Prop) : (new rows blockCapacity).Intact distinct :=
    (ready_new rows blockCapacity).intact
  have hfew : (new rows blockCapacity).roster.size +
      entriesOf (new rows blockCapacity) operations ≤ Arena.sentinel := by
    rw [(ready_new rows blockCapacity).roster_size, Nat.zero_add]
    exact hentries.le.trans (by decide)
  have hintact (distinct : Prop)
      (hdistinct : distinct → ∀ operation ∈ operations, operation.Distinct) :=
    ((hnew distinct).keeps_execute operations hpermitted hdistinct hlaid hfew).intact
  have hconsistent := (hintact False False.elim).consistent
  refine ⟨?_, hconsistent.liveIdeals_eq, hconsistent.liveRows_eq, hconsistent.isConsistent, ?_, ?_⟩
  · intro slot
    rw [hconsistent.count_eq, Rows.references, Nat.cast_sum]
  · intro hdistinct slot
    rw [hconsistent.count_eq, Rows.references_eq_card ((hintact True fun _ => hdistinct).nodup trivial)]
  · rintro before operation after rfl
    obtain ⟨hbefore, hallowed⟩ := hpermitted.split
    rw [entriesOf_append, entriesOf] at hfew
    obtain ⟨hintactBefore, hcapacityBefore, hsizeBefore⟩ :=
      (hnew False).keeps_execute before hbefore False.elim hlaid (by omega)
    constructor
    · intro mid row hdrops
      exact hdrops.droppable hintactBefore.consistent hallowed
    · intro row hrow hlost
      exact hintactBefore.exists_drops hallowed False.elim (hcapacityBefore ▸ hlaid) (by omega) hrow hlost

/-- Two rows get lists, one of them with an ideal twice, a list that is too long is refused, rows are deleted,
and a reloading breaks off in the middle. -/
def sampleOperations : List Operation :=
  [.register 0 [⟨3, 1⟩, ⟨3, 1⟩, ⟨5, 2⟩], .register 1 [⟨5, 2⟩],
    .register 2 [⟨3, 1⟩, ⟨5, 2⟩, ⟨7, 0⟩, ⟨7, 1⟩], .delete 0, .sweep, .prune 160 true Cost.rowFraction,
    .reload .checked .none [.line "1,1:3:5", .line "6,1:3:5", .line "4,1:3,7:", .fault .notText],
    .register 3 [⟨11, 4⟩], .removeSingletons]

theorem execute_consistent_sample :
    Permitted (new 4 4) sampleOperations ∧
      ((new 4 4).execute sampleOperations).isConsistent = true := by
  have hpermitted : Permitted (new 4 4) sampleOperations := by decide +kernel
  exact ⟨hpermitted, (execute_consistent 4 4 sampleOperations (by decide) hpermitted
    (by decide +kernel)).2.2.2.1⟩

end SieveFilter.Incidence
