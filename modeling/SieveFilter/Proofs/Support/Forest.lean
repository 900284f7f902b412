import SieveFilter.Proofs.Support.References

/-!
# Forests of linked rows

Two rows are linked by an entry that is listed exactly twice, once in each of them.  A walk along links
from some roots finds with every further row an entry that links it to the rows found before, so a walk
that finds all rows has seen at least as many such entries as there are rows besides the roots.  Each of
those entries is listed by a row that is no root; hence the rows other than the roots refer to at least
as many entries as they are, and their excess is not positive.
-/

namespace SieveFilter.Rows

variable {κ : Type*} [DecidableEq κ]

/-- `found` are rows of `S` that can be reached along links from `roots`, found one after the other. -/
inductive Grows (rows : ℕ → List κ) (S : Finset ℕ) : Finset ℕ → Finset ℕ → Prop
  | empty : Grows rows S ∅ ∅
  | root {found roots : Finset ℕ} {row : ℕ} (h : Grows rows S found roots)
      (hrow : row ∈ S) (hnew : row ∉ found) :
      Grows rows S (insert row found) (insert row roots)
  | link {found roots : Finset ℕ} {row other : ℕ} {k : κ} (h : Grows rows S found roots)
      (hrow : row ∈ found) (hk : k ∈ rows row) (htwo : references rows S k = 2)
      (hother : other ∈ S) (hk' : k ∈ rows other) (hnew : other ∉ found) :
      Grows rows S (insert other found) roots

/-- The entries that are listed exactly twice, by found rows only and not by roots only. -/
def linkEntries (rows : ℕ → List κ) (S found roots : Finset ℕ) : Finset κ :=
  (referenced rows S).filter fun k =>
    references rows S k = 2 ∧ (∀ row ∈ S, k ∈ rows row → row ∈ found) ∧
      ∃ row ∈ S, k ∈ rows row ∧ row ∉ roots

variable {rows : ℕ → List κ} {S found roots : Finset ℕ} {row other : ℕ} {k : κ}

theorem Grows.roots_subset (h : Grows rows S found roots) : roots ⊆ found := by
  induction h with
  | empty => exact Finset.Subset.refl ∅
  | root _ _ _ ih => exact Finset.insert_subset_insert _ ih
  | link _ _ _ _ _ _ _ ih => exact ih.trans (Finset.subset_insert _ _)

theorem Grows.found_subset (h : Grows rows S found roots) : found ⊆ S := by
  induction h with
  | empty => exact Finset.empty_subset S
  | root _ hrow _ ih => exact Finset.insert_subset hrow ih
  | link _ _ _ _ hother _ _ ih => exact Finset.insert_subset hother ih

/-- An entry that is listed twice in all, by two different rows, is listed by no third one. -/
theorem eq_or_eq_of_references_eq_two {third : ℕ}
    (htwo : references rows S k = 2) (hrow : row ∈ S) (hk : k ∈ rows row)
    (hother : other ∈ S) (hk' : k ∈ rows other) (hne : other ≠ row)
    (hthird : third ∈ S) (hk'' : k ∈ rows third) :
    third = row ∨ third = other := by
  by_contra hneither
  obtain ⟨hrow', hother'⟩ := not_or.mp hneither
  have hfirst := references_erase rows k hrow
  have hsecond := references_erase rows k (Finset.mem_erase.mpr ⟨hne, hother⟩)
  have hlast := count_le_references rows k
    (Finset.mem_erase.mpr ⟨hother', Finset.mem_erase.mpr ⟨hrow', hthird⟩⟩)
  have hpos := List.count_pos_iff.mpr hk
  have hpos' := List.count_pos_iff.mpr hk'
  have hpos'' := List.count_pos_iff.mpr hk''
  omega

/-- A new root brings no link, and takes none away. -/
theorem linkEntries_subset_root (rows : ℕ → List κ) (S roots : Finset ℕ) (hnew : row ∉ found) :
    linkEntries rows S found roots ⊆
      linkEntries rows S (insert row found) (insert row roots) := by
  intro k hk
  obtain ⟨hheld, htwo, hall, held, hin, hmem, hroot⟩ := Finset.mem_filter.mp hk
  refine Finset.mem_filter.mpr ⟨hheld, htwo, ?_, held, hin, hmem, ?_⟩
  · intro third hthird hk
    exact Finset.mem_insert_of_mem (hall third hthird hk)
  · intro hmem'
    rcases Finset.mem_insert.mp hmem' with rfl | hold
    · exact hnew (hall held hin hmem)
    · exact hroot hold

/-- A row found along a link brings the entry of the link. -/
theorem linkEntries_ssubset_link
    (hfound : found ⊆ S) (hroots : roots ⊆ found) (hrow : row ∈ found) (hk : k ∈ rows row)
    (htwo : references rows S k = 2) (hother : other ∈ S) (hk' : k ∈ rows other)
    (hnew : other ∉ found) :
    linkEntries rows S found roots ⊂ linkEntries rows S (insert other found) roots := by
  have hsubset :
      linkEntries rows S found roots ⊆ linkEntries rows S (insert other found) roots := by
    intro x hx
    obtain ⟨hheld, htwo, hall, hlister⟩ := Finset.mem_filter.mp hx
    exact Finset.mem_filter.mpr ⟨hheld, htwo,
      fun third hthird hx => Finset.mem_insert_of_mem (hall third hthird hx), hlister⟩
  have hne : other ≠ row := fun heq => hnew (heq ▸ hrow)
  have hin : k ∈ linkEntries rows S (insert other found) roots := by
    refine Finset.mem_filter.mpr ⟨mem_referenced.mpr ⟨other, hother, hk'⟩, htwo, ?_,
      other, hother, hk', fun hroot => hnew (hroots hroot)⟩
    intro third hthird hk''
    rcases eq_or_eq_of_references_eq_two htwo (hfound hrow) hk hother hk' hne hthird hk''
      with rfl | rfl
    · exact Finset.mem_insert_of_mem hrow
    · exact Finset.mem_insert_self _ _
  have hnotIn : k ∉ linkEntries rows S found roots := by
    intro hmem
    exact hnew ((Finset.mem_filter.mp hmem).2.2.1 other hother hk')
  exact Finset.ssubset_iff_subset_ne.mpr ⟨hsubset, fun heq => hnotIn (heq ▸ hin)⟩

/-- Every row found, the roots left out, has brought a link. -/
theorem Grows.card_le (h : Grows rows S found roots) :
    found.card ≤ (linkEntries rows S found roots).card + roots.card := by
  induction h with
  | empty => simp
  | @root found roots row h hrow hnew ih =>
    have hlinks := Finset.card_le_card (linkEntries_subset_root rows S roots hnew)
    rw [Finset.card_insert_of_notMem hnew,
      Finset.card_insert_of_notMem fun hroot => hnew (h.roots_subset hroot)]
    omega
  | @link found roots row other k h hrow hk htwo hother hk' hnew ih =>
    have hlinks := Finset.card_lt_card
      (linkEntries_ssubset_link h.found_subset h.roots_subset hrow hk htwo hother hk' hnew)
    rw [Finset.card_insert_of_notMem hnew]
    omega

/-- When all rows can be reached from the roots, the excess of the rows other than the roots is not
positive. -/
theorem Grows.excess_sdiff_le (h : Grows rows S S roots) :
    excess rows (S \ roots) ≤ 0 := by
  have hlisted : linkEntries rows S S roots ⊆ referenced rows (S \ roots) := by
    intro k hk
    obtain ⟨-, -, -, row, hrow, hmem, hroot⟩ := Finset.mem_filter.mp hk
    exact mem_referenced.mpr ⟨row, Finset.mem_sdiff.mpr ⟨hrow, hroot⟩, hmem⟩
  have hcard := Finset.card_le_card hlisted
  have hlinks := h.card_le
  have hrest := Finset.card_sdiff_of_subset h.roots_subset
  simp only [excess]
  omega

/-! ## The partner of a row -/

/-- The sum of the numbers of the rows that list an entry, each as often as it lists it. -/
def rowSum (rows : ℕ → List κ) (S : Finset ℕ) (k : κ) : ℕ :=
  ∑ row ∈ S, (rows row).count k * row

/-- For an entry that is listed exactly twice, by two different rows, the sum is that of these rows. -/
theorem rowSum_eq_add (hrow : row ∈ S) (hk : k ∈ rows row) (htwo : references rows S k = 2)
    (hother : other ∈ S) (hk' : k ∈ rows other) (hne : other ≠ row) :
    rowSum rows S k = row + other := by
  have hin : other ∈ S.erase row := Finset.mem_erase.mpr ⟨hne, hother⟩
  have hfirst := references_erase rows k hrow
  have hsecond := references_erase rows k hin
  have hpos := List.count_pos_iff.mpr hk
  have hpos' := List.count_pos_iff.mpr hk'
  have hsum := Finset.add_sum_erase S (fun row => (rows row).count k * row) hrow
  have hsum' := Finset.add_sum_erase (S.erase row) (fun row => (rows row).count k * row) hin
  have hzero : ∑ third ∈ (S.erase row).erase other, (rows third).count k * third = 0 := by
    apply Finset.sum_eq_zero
    intro third hthird
    have hle := count_le_references rows k hthird
    have hcount : (rows third).count k = 0 := by omega
    rw [hcount, Nat.zero_mul]
  have hcount : (rows row).count k = 1 := by omega
  have hcount' : (rows other).count k = 1 := by omega
  simp only [rowSum]
  rw [← hsum, ← hsum', hzero, hcount, hcount']
  omega

/-- For an entry that is listed exactly twice the sum of the row numbers less one of the rows is the
other one, which is the same row if that row lists the entry twice. -/
theorem exists_partner (hrow : row ∈ S) (hk : k ∈ rows row) (htwo : references rows S k = 2) :
    ∃ other ∈ S, k ∈ rows other ∧ rowSum rows S k = row + other := by
  have herase := references_erase rows k hrow
  have hsum := Finset.add_sum_erase S (fun row => (rows row).count k * row) hrow
  have hpos := List.count_pos_iff.mpr hk
  by_cases htwice : (rows row).count k = 2
  · have hnone : references rows (S.erase row) k = 0 := by omega
    have hzero : ∑ other ∈ S.erase row, (rows other).count k * other = 0 := by
      apply Finset.sum_eq_zero
      intro other hother
      have hle := count_le_references rows k hother
      have hcount : (rows other).count k = 0 := by omega
      rw [hcount, Nat.zero_mul]
    refine ⟨row, hrow, hk, ?_⟩
    simp only [rowSum]
    rw [← hsum, hzero, htwice]
    omega
  · have hone : references rows (S.erase row) k = 1 := by omega
    obtain ⟨other, hother, hk'⟩ := mem_referenced.mp (references_pos_iff.mp (hone ▸ Nat.one_pos))
    obtain ⟨hne, hother⟩ := Finset.mem_erase.mp hother
    exact ⟨other, hother, hk', rowSum_eq_add hrow hk htwo hother hk' hne⟩

/-- No third row lists the entry. -/
theorem eq_or_eq_of_rowSum_eq (hrow : row ∈ S) (hk : k ∈ rows row) (htwo : references rows S k = 2)
    (hsum : rowSum rows S k = row + other) {third : ℕ} (hthird : third ∈ S)
    (hk' : k ∈ rows third) : third = row ∨ third = other := by
  by_cases heq : third = row
  · exact .inl heq
  · have hadd := rowSum_eq_add hrow hk htwo hthird hk' heq
    exact .inr (by omega)

/-- The sum leads back to the same row exactly when that row lists the entry twice. -/
theorem eq_iff_of_rowSum_eq (hrow : row ∈ S) (hk : k ∈ rows row) (htwo : references rows S k = 2)
    (hother : other ∈ S) (hk' : k ∈ rows other) (hsum : rowSum rows S k = row + other) :
    other = row ↔ (rows row).count k = 2 := by
  have herase := references_erase rows k hrow
  constructor
  · rintro rfl
    by_contra honce
    have hpos := List.count_pos_iff.mpr hk
    have hrest : 0 < references rows (S.erase other) k := by omega
    obtain ⟨third, hthird, hlisted⟩ := mem_referenced.mp (references_pos_iff.mp hrest)
    obtain ⟨hne, hthird⟩ := Finset.mem_erase.mp hthird
    have hadd := rowSum_eq_add hrow hk htwo hthird hlisted hne
    omega
  · intro htwice
    by_contra hne
    have hrest := count_le_references rows k (Finset.mem_erase.mpr ⟨hne, hother⟩)
    have hpos := List.count_pos_iff.mpr hk'
    omega

end SieveFilter.Rows
