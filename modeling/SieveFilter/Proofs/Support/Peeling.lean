import SieveFilter.Proofs.Support.References
import Mathlib.Data.Finset.Powerset
import Mathlib.Order.Bounds.Basic

/-!
# Peeling rows off and the core

A set of rows is stable when none of its entries is listed exactly once in it.  The core of a set of rows
is its greatest stable subset.  Peeling takes out rows with an entry that is listed exactly once, one row
after the other and in any order: it never touches the core, never lowers the excess, and where it cannot
go on it has arrived at the core.
-/

namespace SieveFilter.Rows

variable {κ : Type*} [DecidableEq κ]

/-- No entry of `S` is listed exactly once in the rows of `S`. -/
def Stable (rows : ℕ → List κ) (S : Finset ℕ) : Prop :=
  ∀ row ∈ S, ∀ k ∈ rows row, references rows S k ≠ 1

instance (rows : ℕ → List κ) (S : Finset ℕ) : Decidable (Stable rows S) :=
  inferInstanceAs (Decidable (∀ row ∈ S, ∀ k ∈ rows row, references rows S k ≠ 1))

/-- The rows that lie in a stable subset of `S`. -/
def core (rows : ℕ → List κ) (S : Finset ℕ) : Finset ℕ :=
  (S.powerset.filter (Stable rows)).biUnion id

/-- `T` is left of `S` after rows were taken out one by one, each of them with an entry that was listed
exactly once at that time. -/
inductive Peels (rows : ℕ → List κ) : Finset ℕ → Finset ℕ → Prop
  | refl (S : Finset ℕ) : Peels rows S S
  | step {S T : Finset ℕ} {row : ℕ} {k : κ} (hrow : row ∈ S) (hk : k ∈ rows row)
      (hone : references rows S k = 1) (hrest : Peels rows (S.erase row) T) :
      Peels rows S T

variable {rows : ℕ → List κ} {S T : Finset ℕ} {row : ℕ} {k : κ}

theorem mem_core : row ∈ core rows S ↔ ∃ T ⊆ S, Stable rows T ∧ row ∈ T := by
  simp only [core, Finset.mem_biUnion, Finset.mem_filter, Finset.mem_powerset, id_eq, and_assoc]

theorem core_subset : core rows S ⊆ S := by
  intro row hrow
  obtain ⟨T, hTS, -, hrow⟩ := mem_core.mp hrow
  exact hTS hrow

/-- The core contains every stable subset. -/
theorem subset_core (hTS : T ⊆ S) (hT : Stable rows T) : T ⊆ core rows S :=
  fun _ hrow => mem_core.mpr ⟨T, hTS, hT, hrow⟩

/-- The core is stable: a stable set that holds a row lists the entries of that row at least twice, and
larger sets list them no less often. -/
theorem stable_core : Stable rows (core rows S) := by
  intro row hrow k hk hone
  obtain ⟨T, hTS, hT, hrow⟩ := mem_core.mp hrow
  have hmono : references rows T k ≤ references rows (core rows S) k :=
    references_mono (subset_core hTS hT)
  have hheld : 0 < references rows T k :=
    references_pos_iff.mpr (mem_referenced.mpr ⟨row, hrow, hk⟩)
  have hnotOne := hT row hrow k hk
  omega

/-- The core is the greatest stable subset. -/
theorem isGreatest_core : IsGreatest {T | T ⊆ S ∧ Stable rows T} (core rows S) :=
  ⟨⟨core_subset, stable_core⟩, fun _ hT => subset_core hT.1 hT.2⟩

/-- Entries that no row lists are not listed exactly once either. -/
theorem stable_iff_forall : Stable rows S ↔ ∀ k, references rows S k ≠ 1 := by
  constructor
  · intro hS k hone
    obtain ⟨row, hrow, hk⟩ := mem_referenced.mp (references_pos_iff.mp (hone ▸ Nat.one_pos))
    exact hS row hrow k hk hone
  · intro hall row _ k _
    exact hall k

theorem isGreatest_core_forall :
    IsGreatest {T | T ⊆ S ∧ ∀ k, references rows T k ≠ 1} (core rows S) := by
  simp only [← stable_iff_forall]
  exact isGreatest_core

theorem core_eq_self (hS : Stable rows S) : core rows S = S :=
  Finset.Subset.antisymm core_subset (subset_core (Finset.Subset.refl S) hS)

/-- A set between the core and the whole has the same core. -/
theorem core_eq_of_between (hcore : core rows S ⊆ T) (hTS : T ⊆ S) :
    core rows T = core rows S :=
  Finset.Subset.antisymm
    (subset_core (core_subset.trans hTS) stable_core)
    (subset_core hcore stable_core)

/-- A row with an entry that is listed exactly once is not in the core. -/
theorem not_mem_core (hk : k ∈ rows row) (hone : references rows S k = 1) :
    row ∉ core rows S := by
  intro hrow
  have hmono : references rows (core rows S) k ≤ references rows S k :=
    references_mono core_subset
  have hheld : 0 < references rows (core rows S) k :=
    references_pos_iff.mpr (mem_referenced.mpr ⟨row, hrow, hk⟩)
  have hnotOne := stable_core row hrow k hk
  omega

theorem core_erase (hk : k ∈ rows row) (hone : references rows S k = 1) :
    core rows (S.erase row) = core rows S :=
  core_eq_of_between
    (fun _ hmem => Finset.mem_erase.mpr
      ⟨fun heq => not_mem_core hk hone (heq ▸ hmem), core_subset hmem⟩)
    (Finset.erase_subset row S)

theorem stable_image {f : ℕ → ℕ} (hf : Set.InjOn f S) :
    Stable rows (S.image f) ↔ Stable (fun row => rows (f row)) S := by
  simp only [Stable, Finset.forall_mem_image, references_image hf]

/-- Where no row repeats an entry, a set of rows is stable when at least two of its rows list each of its
entries. -/
theorem stable_iff_two_le (hnodup : ∀ row ∈ S, (rows row).Nodup) :
    Stable rows S ↔
      ∀ row ∈ S, ∀ k ∈ rows row, 2 ≤ (S.filter fun other => k ∈ rows other).card := by
  have htwo (row : ℕ) (hrow : row ∈ S) (k : κ) (hk : k ∈ rows row) :
      references rows S k ≠ 1 ↔ 2 ≤ (S.filter fun other => k ∈ rows other).card := by
    have hheld : 0 < references rows S k :=
      references_pos_iff.mpr (mem_referenced.mpr ⟨row, hrow, hk⟩)
    rw [references_eq_card hnodup] at hheld ⊢
    omega
  exact forall₂_congr fun row hrow => forall₂_congr (htwo row hrow)

/-! ## Peeling -/

theorem Peels.trans {U : Finset ℕ} (hST : Peels rows S T) (hTU : Peels rows T U) :
    Peels rows S U := by
  induction hST with
  | refl S => exact hTU
  | step hrow hk hone _ ih => exact .step hrow hk hone (ih hTU)

/-- Peeling does not touch the core. -/
theorem Peels.core_eq (h : Peels rows S T) : core rows T = core rows S := by
  induction h with
  | refl S => rfl
  | step _ hk hone _ ih => rw [ih, core_erase hk hone]

/-- Peeling does not lower the excess. -/
theorem Peels.excess_le (h : Peels rows S T) : excess rows S ≤ excess rows T := by
  induction h with
  | refl S => exact le_refl _
  | step hrow hk hone _ ih => exact (excess_le_excess_erase hrow hk hone).trans ih

/-- Where peeling cannot go on, it has arrived at the core, whatever the order. -/
theorem Peels.eq_core (h : Peels rows S T) (hT : Stable rows T) : T = core rows S := by
  rw [← h.core_eq, core_eq_self hT]

/-- Every set of rows can be peeled down to its core. -/
theorem peels_core : Peels rows S (core rows S) := by
  induction S using Finset.strongInduction with
  | H S ih =>
    by_cases hS : Stable rows S
    · rw [core_eq_self hS]
      exact .refl S
    · simp only [Stable, not_forall, not_not] at hS
      obtain ⟨row, hrow, k, hk, hone⟩ := hS
      have hrest := ih (S.erase row) (Finset.erase_ssubset hrow)
      rw [core_erase hk hone] at hrest
      exact .step hrow hk hone hrest

/-- The core has the greatest excess that peeling can reach. -/
theorem excess_le_excess_core : excess rows S ≤ excess rows (core rows S) :=
  peels_core.excess_le

/-! ## Lists that agree, and renamed entries -/

theorem stable_congr {rows' : ℕ → List κ} (heq : ∀ row ∈ S, rows row = rows' row) :
    Stable rows S ↔ Stable rows' S := by
  have hone (row : ℕ) (hrow : row ∈ S) :
      (∀ k ∈ rows row, references rows S k ≠ 1) ↔
        ∀ k ∈ rows' row, references rows' S k ≠ 1 := by
    simp only [heq row hrow, references_congr heq]
  exact forall₂_congr hone

theorem core_congr {rows' : ℕ → List κ} (heq : ∀ row ∈ S, rows row = rows' row) :
    core rows S = core rows' S := by
  ext row
  simp only [mem_core]
  apply exists_congr
  intro T
  apply and_congr_right
  intro hTS
  rw [stable_congr fun row hrow => heq row (hTS hrow)]

/-- A renaming that tells entries apart keeps stability. -/
theorem stable_rename {ι : Type*} [DecidableEq ι] {φ : κ → ι} {rows' : ℕ → List ι}
    (hmap : ∀ row ∈ S, rows' row = (rows row).map φ)
    (hinj : Set.InjOn φ (referenced rows S)) :
    Stable rows' S ↔ Stable rows S := by
  have hone (row : ℕ) (hrow : row ∈ S) :
      (∀ k ∈ rows' row, references rows' S k ≠ 1) ↔
        ∀ k ∈ rows row, references rows S k ≠ 1 := by
    rw [hmap row hrow, List.forall_mem_map]
    apply forall₂_congr
    intro k hk
    rw [references_rename hmap hinj (mem_referenced.mpr ⟨row, hrow, hk⟩)]
  exact forall₂_congr hone

theorem core_rename {ι : Type*} [DecidableEq ι] {φ : κ → ι} {rows' : ℕ → List ι}
    (hmap : ∀ row ∈ S, rows' row = (rows row).map φ)
    (hinj : Set.InjOn φ (referenced rows S)) :
    core rows' S = core rows S := by
  ext row
  simp only [mem_core]
  apply exists_congr
  intro T
  apply and_congr_right
  intro hTS
  rw [stable_rename (fun row hrow => hmap row (hTS hrow))
    (hinj.mono (Finset.coe_subset.mpr (referenced_mono hTS)))]

/-! ## Restricted lists -/

variable {p : κ → Bool}

/-- What can be peeled by looking at some of the entries can be peeled by looking at all of them. -/
theorem Peels.of_restrict (h : Peels (restrict rows p) S T) : Peels rows S T := by
  induction h with
  | refl S => exact .refl S
  | step hrow hk hone _ ih =>
    obtain ⟨hmem, hp⟩ := mem_restrict.mp hk
    rw [references_restrict hp] at hone
    exact .step hrow hmem hone ih

/-- Removal by some of the entries first and by all of them afterwards ends where removal by all of them
ends. -/
theorem core_core_restrict :
    core rows (core (restrict rows p) S) = core rows S :=
  peels_core.of_restrict.core_eq

end SieveFilter.Rows
