import SieveFilter.Proofs.Relation.Proper
import Mathlib.Algebra.Ring.Parity

/-!
# Ideals of rows

The ideals of a proper relation are distinct, and bounds select ideals of either side by their primes alone.
The rows of an input are its lines, each with the ideals that have an odd exponent in its relation.
-/

namespace SieveFilter

/-- An ideal passes bounds when its prime reaches the bound of its side. -/
def Bounds.admits (bounds : Bounds) (ideal : Ideal) : Bool :=
  if ideal.isRational then bounds.rational ≤ ideal.p else bounds.algebraic ≤ ideal.p

theorem Bounds.admits_of_admitAll {bounds : Bounds} (hall : bounds.admitAll = true)
    (ideal : Ideal) : bounds.admits ideal = true := by
  simp only [Bounds.admitAll, Bool.and_eq_true, beq_iff_eq] at hall
  simp [Bounds.admits, hall.1, hall.2]

/-- Lower bounds admit more ideals. -/
theorem Bounds.admits_mono {bounds bounds' : Bounds}
    (hrational : bounds'.rational ≤ bounds.rational)
    (halgebraic : bounds'.algebraic ≤ bounds.algebraic) {ideal : Ideal}
    (hadmits : bounds.admits ideal = true) : bounds'.admits ideal = true := by
  unfold Bounds.admits at hadmits ⊢
  split at hadmits
  next hside =>
    rw [if_pos hside]
    exact decide_eq_true (Nat.le_trans hrational (of_decide_eq_true hadmits))
  next hside =>
    rw [if_neg hside]
    exact decide_eq_true (Nat.le_trans halgebraic (of_decide_eq_true hadmits))

namespace Relation

/-! ## Proper relations -/

/-- The ideals of a proper relation, those of the rational side first. -/
theorem Proper.ideals_eq {relation : Relation} (h : relation.Proper) :
    relation.ideals =
      (if relation.isFree then [Ideal.rational relation.a.natAbs]
        else relation.rational.map fun f => Ideal.rational f.p) ++
      relation.algebraic.map fun f => ⟨f.p, f.r⟩ := by
  by_cases hfree : relation.isFree = true
  · have hprimes := h.prime_eq hfree
    simp only [ideals, idealsAbove, hfree, Bounds.none, Nat.zero_le, if_true]
    congr 1
    apply List.map_congr_left
    intro f hf
    rw [hprimes f hf]
  · simp [ideals, idealsAbove, hfree, Bounds.none]

theorem Proper.nodup_ideals {relation : Relation} (h : relation.Proper) :
    relation.ideals.Nodup := by
  rw [h.ideals_eq]
  apply List.Nodup.append
  · split
    · exact List.nodup_singleton _
    · apply List.Nodup.of_map Ideal.p
      simpa [Function.comp_def, Ideal.rational] using h.rational_nodup
  · apply List.Nodup.of_map fun ideal => (ideal.p, ideal.r)
    simpa [Function.comp_def] using h.algebraic_nodup
  · intro ideal hrational halgebraic
    obtain ⟨f, hf, rfl⟩ := List.mem_map.mp halgebraic
    apply h.root_ne f hf
    split at hrational
    · simp only [Ideal.rational, List.mem_singleton, Ideal.mk.injEq] at hrational
      exact hrational.2
    · obtain ⟨g, -, hg⟩ := List.mem_map.mp hrational
      simp only [Ideal.rational, Ideal.mk.injEq] at hg
      exact hg.2.symm

theorem admits_rational (bounds : Bounds) (p : ℕ) :
    bounds.admits (Ideal.rational p) = true ↔ bounds.rational ≤ p := by
  have hside : (Ideal.rational p).isRational = true := by simp [Ideal.isRational, Ideal.rational]
  rw [Bounds.admits, if_pos hside]
  exact decide_eq_true_iff

/-- Bounds select the ideals of the algebraic side by their primes. -/
theorem Proper.filter_algebraic {relation : Relation} (h : relation.Proper) (bounds : Bounds) :
    (relation.algebraic.map fun f => (⟨f.p, f.r⟩ : Ideal)).filter bounds.admits =
      (relation.algebraic.filter (bounds.algebraic ≤ ·.p)).map fun f => ⟨f.p, f.r⟩ := by
  rw [List.filter_map]
  congr 1
  apply List.filter_congr
  intro f hf
  simp [Bounds.admits, Ideal.isRational, h.root_ne f hf]

/-- The ideals of a proper relation above bounds are those that the bounds admit. -/
theorem Proper.idealsAbove_eq {relation : Relation} (h : relation.Proper) (bounds : Bounds) :
    relation.idealsAbove bounds = relation.ideals.filter bounds.admits := by
  rw [h.ideals_eq, List.filter_append, h.filter_algebraic]
  by_cases hfree : relation.isFree = true
  · have hprimes := h.prime_eq hfree
    simp only [idealsAbove, hfree, if_true]
    congr 1
    · by_cases hbound : bounds.rational ≤ relation.a.natAbs
      · rw [if_pos hbound, List.filter_cons_of_pos ((admits_rational bounds _).mpr hbound),
          List.filter_nil]
      · rw [if_neg hbound, List.filter_cons_of_neg (mt (admits_rational bounds _).mp hbound),
          List.filter_nil]
    · by_cases hbound : bounds.algebraic ≤ relation.a.natAbs
      · rw [if_pos hbound, List.filter_eq_self.mpr]
        · apply List.map_congr_left
          intro f hf
          rw [hprimes f hf]
        · intro f hf
          rw [hprimes f hf]
          exact decide_eq_true hbound
      · rw [if_neg hbound, List.filter_eq_nil_iff.mpr]
        · rfl
        · intro f hf
          rw [hprimes f hf]
          simpa using hbound
  · rw [idealsAbove, if_neg hfree, if_neg hfree, List.filter_map]
    rfl

/-- Reducing exponents only leaves factors out. -/
theorem Proper.reduced {relation : Relation} (h : relation.Proper) : relation.reduced.Proper := by
  refine ⟨?_, ?_, ?_, ?_⟩
  · simp only [Relation.reduced, List.map_map, Function.comp_def]
    exact h.rational_nodup.sublist (List.filter_sublist.map _)
  · simp only [Relation.reduced, List.map_map, Function.comp_def]
    exact h.algebraic_nodup.sublist (List.filter_sublist.map _)
  · simp only [Relation.reduced, List.forall_mem_map]
    intro f hf
    exact h.root_ne f (List.mem_of_mem_filter hf)
  · simp only [Relation.reduced, List.forall_mem_map]
    intro hfree f hf
    exact h.prime_eq hfree f (List.mem_of_mem_filter hf)

theorem Proper.forMatrix {relation : Relation} (h : relation.Proper) :
    relation.forMatrix.Proper := by
  rw [Relation.forMatrix]
  split
  · exact h
  · exact h.reduced

/-! ## Rows -/

/-- The ideals that count for the relation on a line; a malformed line has none. -/
def lineIdeals (line : String) : List Ideal :=
  match ofLine line with
  | .ok relation => relation.forMatrix.ideals
  | .error _ => []

/-- The ideals that count for a row of an input; rows outside have none. -/
def rowIdeals (lines : List String) (row : ℕ) : List Ideal :=
  (lines[row]?.map lineIdeals).getD []

theorem lineIdeals_eq {line : String} {relation : Relation} (hread : ofLine line = .ok relation) :
    lineIdeals line = relation.forMatrix.ideals := by
  simp [lineIdeals, hread]

theorem nodup_lineIdeals (line : String) : (lineIdeals line).Nodup := by
  unfold lineIdeals
  split
  next relation hread => exact (proper_of_ofLine hread).forMatrix.nodup_ideals
  next => exact List.nodup_nil

theorem nodup_rowIdeals (lines : List String) (row : ℕ) : (rowIdeals lines row).Nodup := by
  unfold rowIdeals
  cases lines[row]? with
  | none => exact List.nodup_nil
  | some line => exact nodup_lineIdeals line

/-- An ideal counts for a relation when its exponent is odd; all ideals of a free relation count, the one of
its prime and those of the listed roots. -/
def Counts (relation : Relation) (ideal : Ideal) : Prop :=
  if relation.isFree then
    ideal = Ideal.rational relation.a.natAbs ∨
      ∃ f ∈ relation.algebraic, ideal = ⟨relation.a.natAbs, f.r⟩
  else
    (∃ f ∈ relation.rational, Odd f.e ∧ ideal = Ideal.rational f.p) ∨
      ∃ f ∈ relation.algebraic, Odd f.e ∧ ideal = ⟨f.p, f.r⟩

/-- An ideal counts for a row when it counts for the relation on the line of the row. -/
def CountsIn (lines : List String) (row : ℕ) (ideal : Ideal) : Prop :=
  ∃ line relation, lines[row]? = some line ∧ ofLine line = .ok relation ∧ relation.Counts ideal

theorem mem_lineIdeals {line : String} {relation : Relation} (hread : ofLine line = .ok relation)
    {ideal : Ideal} : ideal ∈ lineIdeals line ↔ relation.Counts ideal := by
  rw [lineIdeals_eq hread, Counts]
  by_cases hfree : relation.isFree = true
  · rw [Relation.forMatrix, if_pos hfree, if_pos hfree]
    simp only [ideals, idealsAbove, hfree, Bounds.none, Nat.zero_le, if_true, List.mem_append,
      List.mem_singleton, List.mem_map]
    simp only [eq_comm (a := ideal)]
  · have hfree' : relation.reduced.isFree = relation.isFree := rfl
    rw [Relation.forMatrix, if_neg hfree, if_neg hfree]
    simp only [ideals, idealsAbove, hfree, hfree']
    simp [reduced, Bounds.none, Nat.odd_iff, and_assoc, eq_comm (a := ideal)]

/-- The ideals of a row are those that count for it. -/
theorem mem_rowIdeals {lines : List String} {row : ℕ} {ideal : Ideal} :
    ideal ∈ rowIdeals lines row ↔ CountsIn lines row ideal := by
  unfold rowIdeals CountsIn
  cases lines[row]? with
  | none => simp
  | some line =>
    cases hread : ofLine line with
    | error cause => simp [lineIdeals, hread]
    | ok relation => simp [mem_lineIdeals hread, hread]

/-- What loading reads of a line above bounds is what the bounds admit of its ideals. -/
theorem idealsAbove_of_ofLine {line : String} {relation : Relation}
    (hread : ofLine line = .ok relation) (bounds : Bounds) :
    relation.forMatrix.idealsAbove bounds = (lineIdeals line).filter bounds.admits := by
  rw [lineIdeals_eq hread]
  exact (proper_of_ofLine hread).forMatrix.idealsAbove_eq bounds

end Relation

end SieveFilter
