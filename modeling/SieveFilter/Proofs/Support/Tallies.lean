import Mathlib.Algebra.BigOperators.Group.List.Basic
import Mathlib.Data.Nat.Notation

/-!
# Tallies

A tally walks over the lists of some rows and adds an amount of the row to the sum of each entry.  The sum of
an entry ends up with the amounts of its rows, each taken as often as the row lists the entry.
-/

namespace SieveFilter

variable {M : Type*} [AddCommMonoid M]

/-- Adds an amount to the sums of the entries of a list that are counted, once for each occurrence. -/
def tally (counted : ℕ → Prop) [DecidablePred counted] (amount : M) (sums : Array M)
    (list : List ℕ) : Array M :=
  list.foldl (fun sums entry => if counted entry then sums.modify entry (· + amount) else sums) sums

variable {counted : ℕ → Prop} [DecidablePred counted]

theorem size_tally (amount : M) (sums : Array M) (list : List ℕ) :
    (tally counted amount sums list).size = sums.size := by
  induction list generalizing sums with
  | nil => rfl
  | cons head rest ih =>
    rw [tally, List.foldl_cons]
    refine (ih _).trans ?_
    split
    · exact Array.size_modify
    · rfl

theorem getD_modify_add {sums : Array M} {entry : ℕ} (hentry : entry < sums.size) (head : ℕ)
    (amount : M) :
    (sums.modify head (· + amount)).getD entry 0 =
      sums.getD entry 0 + if head = entry then amount else 0 := by
  simp only [Array.getD_eq_getD_getElem?, Array.getElem?_modify, Array.getElem?_eq_getElem hentry]
  split <;> simp

/-- One list adds its amount to the sum of an entry as often as it has the entry. -/
theorem getD_tally {entry : ℕ} (hcounted : counted entry) (amount : M) {sums : Array M}
    (hentry : entry < sums.size) (list : List ℕ) :
    (tally counted amount sums list).getD entry 0 =
      sums.getD entry 0 + list.count entry • amount := by
  induction list generalizing sums with
  | nil => simp [tally]
  | cons head rest ih =>
    rw [tally, List.foldl_cons]
    refine (ih (by split <;> simp [hentry])).trans ?_
    by_cases heq : head = entry
    · rw [if_pos (heq ▸ hcounted), getD_modify_add hentry, if_pos heq, heq,
        List.count_cons_self, succ_nsmul', add_assoc]
    · rw [List.count_cons_of_ne heq]
      by_cases hhead : counted head
      · rw [if_pos hhead, getD_modify_add hentry, if_neg heq, add_zero]
      · rw [if_neg hhead]

/-- The lists of several rows add up. -/
theorem getD_foldl_tally (counted : ℕ → Prop) [DecidablePred counted] {entry : ℕ}
    (hcounted : counted entry) (lists : ℕ → List ℕ) (amount : ℕ → M) (rows : List ℕ)
    {sums : Array M} (hentry : entry < sums.size) :
    (rows.foldl (fun sums row => tally counted (amount row) sums (lists row)) sums).getD entry 0 =
      sums.getD entry 0 + (rows.map fun row => (lists row).count entry • amount row).sum := by
  induction rows generalizing sums with
  | nil => simp
  | cons row rest ih =>
    rw [List.foldl_cons, ih (by rwa [size_tally]), getD_tally hcounted _ hentry, List.map_cons,
      List.sum_cons, add_assoc]

theorem size_foldl_tally (lists : ℕ → List ℕ) (amount : ℕ → M) (rows : List ℕ)
    (sums : Array M) :
    (rows.foldl (fun sums row => tally counted (amount row) sums (lists row)) sums).size =
      sums.size := by
  induction rows generalizing sums with
  | nil => rfl
  | cons row rest ih => rw [List.foldl_cons, ih, size_tally]

end SieveFilter
