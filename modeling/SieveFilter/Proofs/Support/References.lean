import Mathlib.Algebra.BigOperators.Group.Finset.Basic
import Mathlib.Algebra.BigOperators.Group.Finset.Piecewise
import Mathlib.Algebra.Order.BigOperators.Group.Finset
import Mathlib.Data.Finset.Card

/-!
# References from rows to entries

Rows list entries, which are ideals or the slots that stand for them.  This module counts how often the
rows of a finite set list an entry, and compares a set of rows with the set less one row.  The excess of a
set of rows is its size less the number of entries that it refers to.
-/

namespace SieveFilter.Rows

variable {κ : Type*} [DecidableEq κ]

/-- How often the rows of `S` list the entry `k`. -/
def references (rows : ℕ → List κ) (S : Finset ℕ) (k : κ) : ℕ :=
  ∑ row ∈ S, (rows row).count k

/-- The entries that the rows of `S` list. -/
def referenced (rows : ℕ → List κ) (S : Finset ℕ) : Finset κ :=
  S.biUnion fun row => (rows row).toFinset

/-- The number of rows above the number of entries that they list. -/
def excess (rows : ℕ → List κ) (S : Finset ℕ) : ℤ :=
  S.card - (referenced rows S).card

variable {rows : ℕ → List κ} {S T : Finset ℕ} {row : ℕ} {k : κ}

theorem mem_referenced :
    k ∈ referenced rows S ↔ ∃ row ∈ S, k ∈ rows row := by
  simp [referenced]

theorem referenced_mono (hST : S ⊆ T) :
    referenced rows S ⊆ referenced rows T :=
  Finset.biUnion_subset_biUnion_of_subset_left _ hST

theorem references_mono (hST : S ⊆ T) :
    references rows S k ≤ references rows T k :=
  Finset.sum_le_sum_of_subset hST

theorem references_pos_iff :
    0 < references rows S k ↔ k ∈ referenced rows S := by
  rw [references, Finset.sum_pos_iff, mem_referenced]
  simp only [List.count_pos_iff]

theorem references_eq_zero_iff :
    references rows S k = 0 ↔ k ∉ referenced rows S := by
  rw [← references_pos_iff]
  omega

/-- A row of `S` contributes its own occurrences. -/
theorem count_le_references (rows : ℕ → List κ) (k : κ) (hrow : row ∈ S) :
    (rows row).count k ≤ references rows S k :=
  Finset.single_le_sum (f := fun row => (rows row).count k)
    (fun _ _ => Nat.zero_le _) hrow

/-- Taking a row out takes its occurrences out. -/
theorem references_erase (rows : ℕ → List κ) (k : κ) (hrow : row ∈ S) :
    references rows (S.erase row) k + (rows row).count k =
      references rows S k := by
  rw [add_comm]
  exact Finset.add_sum_erase S (fun row => (rows row).count k) hrow

/-- Where no row repeats an entry, the references are the rows that list it. -/
theorem references_eq_card (hnodup : ∀ row ∈ S, (rows row).Nodup) :
    references rows S k = (S.filter fun row => k ∈ rows row).card := by
  rw [references, Finset.card_filter]
  apply Finset.sum_congr rfl
  intro row hrow
  exact (hnodup row hrow).count

/-- References depend only on the lists of the rows counted. -/
theorem references_congr {rows' : ℕ → List κ}
    (heq : ∀ row ∈ S, rows row = rows' row) :
    references rows S k = references rows' S k := by
  apply Finset.sum_congr rfl
  intro row hrow
  rw [heq row hrow]

theorem referenced_congr {rows' : ℕ → List κ}
    (heq : ∀ row ∈ S, rows row = rows' row) :
    referenced rows S = referenced rows' S := by
  ext k
  rw [← references_pos_iff, ← references_pos_iff, references_congr heq]

theorem excess_congr {rows' : ℕ → List κ}
    (heq : ∀ row ∈ S, rows row = rows' row) :
    excess rows S = excess rows' S := by
  rw [excess, excess, referenced_congr heq]

/-- The entries lost with a row are among the entries of that row. -/
theorem referenced_erase_subset (rows : ℕ → List κ) (S : Finset ℕ) (row : ℕ) :
    referenced rows (S.erase row) ⊆ referenced rows S :=
  referenced_mono (Finset.erase_subset row S)

/-- Taking one row out lowers the excess by at most one. -/
theorem excess_erase_ge (rows : ℕ → List κ) (hrow : row ∈ S) :
    excess rows S - 1 ≤ excess rows (S.erase row) := by
  have hcard := Finset.card_erase_add_one hrow
  have hreferenced :=
    Finset.card_le_card (referenced_erase_subset rows S row)
  simp only [excess]
  omega

/-- Taking out a row with an entry that no other row lists does not lower the excess. -/
theorem excess_le_excess_erase
    (hrow : row ∈ S) (hk : k ∈ rows row) (hone : references rows S k = 1) :
    excess rows S ≤ excess rows (S.erase row) := by
  have hcard := Finset.card_erase_add_one hrow
  have hlost : k ∉ referenced rows (S.erase row) := by
    have hcount := List.count_pos_iff.mpr hk
    have herase := references_erase rows k hrow
    rw [← references_eq_zero_iff]
    omega
  have hheld : k ∈ referenced rows S := mem_referenced.mpr ⟨row, hrow, hk⟩
  have hreferenced : (referenced rows (S.erase row)).card <
      (referenced rows S).card := by
    apply Finset.card_lt_card
    exact Finset.ssubset_iff_subset_ne.mpr
      ⟨referenced_erase_subset rows S row, fun heq => hlost (heq ▸ hheld)⟩
  simp only [excess]
  omega

/-! ## Renamed entries -/

section Renaming

variable {ι : Type*} [DecidableEq ι] {φ : κ → ι} {rows' : ℕ → List ι}

theorem referenced_rename (hmap : ∀ row ∈ S, rows' row = (rows row).map φ) :
    referenced rows' S = (referenced rows S).image φ := by
  ext x
  simp only [mem_referenced, Finset.mem_image]
  constructor
  · rintro ⟨row, hrow, hx⟩
    rw [hmap row hrow, List.mem_map] at hx
    obtain ⟨k, hk, rfl⟩ := hx
    exact ⟨k, ⟨row, hrow, hk⟩, rfl⟩
  · rintro ⟨k, ⟨row, hrow, hk⟩, rfl⟩
    refine ⟨row, hrow, ?_⟩
    rw [hmap row hrow]
    exact List.mem_map_of_mem hk

/-- A renaming that tells the entries of `S` apart keeps their references. -/
theorem references_rename
    (hmap : ∀ row ∈ S, rows' row = (rows row).map φ)
    (hinj : Set.InjOn φ (referenced rows S)) (hk : k ∈ referenced rows S) :
    references rows' S (φ k) = references rows S k := by
  apply Finset.sum_congr rfl
  intro row hrow
  rw [hmap row hrow, List.count_eq_countP, List.countP_map, List.count_eq_countP]
  apply List.countP_congr
  intro x hx
  have hmem : x ∈ referenced rows S := mem_referenced.mpr ⟨row, hrow, hx⟩
  simp only [Function.comp_apply, beq_iff_eq]
  exact hinj.eq_iff hmem hk

theorem excess_rename
    (hmap : ∀ row ∈ S, rows' row = (rows row).map φ)
    (hinj : Set.InjOn φ (referenced rows S)) :
    excess rows' S = excess rows S := by
  rw [excess, excess, referenced_rename hmap, Finset.card_image_of_injOn hinj]

end Renaming

/-! ## Renumbered rows -/

section Renumbering

variable {f : ℕ → ℕ}

theorem references_image (hf : Set.InjOn f S) (k : κ) :
    references rows (S.image f) k = references (fun row => rows (f row)) S k :=
  Finset.sum_image hf

theorem referenced_image :
    referenced rows (S.image f) = referenced (fun row => rows (f row)) S :=
  Finset.image_biUnion

theorem excess_image (hf : Set.InjOn f S) :
    excess rows (S.image f) = excess (fun row => rows (f row)) S := by
  rw [excess, excess, referenced_image, Finset.card_image_of_injOn hf]

end Renumbering

/-! ## Restricted lists -/

/-- The rows with only those entries that pass a test. -/
def restrict (rows : ℕ → List κ) (p : κ → Bool) (row : ℕ) : List κ :=
  (rows row).filter p

variable {p : κ → Bool}

/-- A restriction keeps the references of the entries that pass. -/
theorem references_restrict (hp : p k = true) :
    references (restrict rows p) S k = references rows S k := by
  apply Finset.sum_congr rfl
  intro row _
  exact List.count_filter hp

omit [DecidableEq κ] in
theorem mem_restrict :
    k ∈ restrict rows p row ↔ k ∈ rows row ∧ p k = true :=
  List.mem_filter

theorem referenced_restrict_subset :
    referenced (restrict rows p) S ⊆ referenced rows S := by
  intro k hk
  obtain ⟨row, hrow, hmem⟩ := mem_referenced.mp hk
  exact mem_referenced.mpr ⟨row, hrow, (mem_restrict.mp hmem).1⟩

/-- A restriction refers to fewer entries, so its excess is not lower. -/
theorem excess_le_excess_restrict :
    excess rows S ≤ excess (restrict rows p) S := by
  have hsubset : referenced (restrict rows p) S ⊆ referenced rows S := referenced_restrict_subset
  have hcard := Finset.card_le_card hsubset
  simp only [excess]
  omega

/-- A restriction that keeps the excess of a set of rows keeps their lists. -/
theorem restrict_eq_of_excess_eq
    (heq : excess (restrict rows p) S = excess rows S) (hrow : row ∈ S) :
    restrict rows p row = rows row := by
  have hcard : (referenced rows S).card ≤ (referenced (restrict rows p) S).card := by
    simp only [excess] at heq
    omega
  have hsame := Finset.eq_of_subset_of_card_le referenced_restrict_subset hcard
  apply List.filter_eq_self.mpr
  intro k hk
  have hall : k ∈ referenced (restrict rows p) S := by
    rw [hsame]
    exact mem_referenced.mpr ⟨row, hrow, hk⟩
  obtain ⟨other, -, hmem⟩ := mem_referenced.mp hall
  exact (mem_restrict.mp hmem).2

end SieveFilter.Rows
