import SieveFilter.Proofs.Relation.Ideals
import SieveFilter.Proofs.Relation.RoundTrip

/-!
# Parities of exponents

A relation that was read and reduced has the ideals of those primes that its line lists an odd number of times,
in the order in which the line lists them first.  No ideal stands there twice, the sides are told apart by the
root, and bounds select ideals of either side without changing their order.
-/

namespace SieveFilter.Relation

open Text (trimEnd)

/-- The primes that a list has an odd number of times, in order of first occurrence. -/
def oddPrimes (primes : List ℕ) : List ℕ :=
  primes.eraseDups.filter (primes.count · % 2 == 1)

theorem mem_oddPrimes {primes : List ℕ} {p : ℕ} : p ∈ oddPrimes primes ↔ Odd (primes.count p) := by
  rw [oddPrimes, List.mem_filter, List.mem_eraseDups, beq_iff_eq, ← Nat.odd_iff, and_iff_right_iff_imp]
  intro hodd
  exact List.count_pos_iff.mp hodd.pos

/-- The line contributes ideals of the rational and of the algebraic side: those of the primes that the two
lists of a pair have an odd number of times, or the ones above the prime of a free relation. -/
def Contributes (line : List Char) (a : ℤ) (b : ℕ) (left right : List Ideal) : Prop :=
  ∃ rational algebraic, Shape line a b rational algebraic ∧
    (0 < b ∧ (∃ ps qs, ListsPrimes rational ps ∧ ListsPrimes algebraic qs ∧
        left = (oddPrimes ps).map Ideal.rational ∧
        right = (oddPrimes qs).map fun q => ⟨q, findRoot a b q⟩) ∨
      b = 0 ∧ ∃ roots, ListsRoots a.natAbs algebraic roots ∧
        left = [Ideal.rational a.natAbs] ∧ right = roots.map (⟨a.natAbs, ·⟩))

/-! ## Reduced relations -/

theorem reduced_ofRoots (a : ℤ) (roots : List ℕ) : (ofRoots a roots).reduced = ofRoots a roots := by
  simp [reduced, ofRoots, List.filter_map, Function.comp_def]

theorem ideals_ofRoots (a : ℤ) (roots : List ℕ) :
    (ofRoots a roots).ideals = [Ideal.rational a.natAbs] ++ roots.map (⟨a.natAbs, ·⟩) := by
  simp [ideals, idealsAbove, isFree, ofRoots, Bounds.none, Function.comp_def]

/-- Reducing the exponents of a pair keeps the ideals of the primes that are listed an odd number of times. -/
theorem ideals_reduced_ofPrimes {a : ℤ} {b : ℕ} (hb : 0 < b) (ps qs : List ℕ) :
    (ofPrimes a b ps qs).reduced.ideals =
      (oddPrimes ps).map Ideal.rational ++ (oddPrimes qs).map fun q => ⟨q, findRoot a b q⟩ := by
  have hfree : (ofPrimes a b ps qs).reduced.isFree = false := beq_false_of_ne (Nat.ne_of_gt hb)
  rw [ideals, idealsAbove, hfree]
  simp [Bounds.none, reduced, ofPrimes, Line.countPrimes_eq, oddPrimes, List.filter_map, Function.comp_def]

theorem exponents_lt_ofPrimes {a : ℤ} {b : ℕ} {ps qs : List ℕ} (hps : ps.length < 2 ^ 32)
    (hqs : qs.length < 2 ^ 32) :
    (∀ f ∈ (ofPrimes a b ps qs).rational, f.e < 2 ^ 32) ∧
      ∀ f ∈ (ofPrimes a b ps qs).algebraic, f.e < 2 ^ 32 := by
  simp only [ofPrimes, Line.countPrimes_eq, List.map_map, List.forall_mem_map, Function.comp_def]
  exact ⟨fun p _ => List.count_le_length.trans_lt hps, fun q _ => List.count_le_length.trans_lt hqs⟩

/-- The exponents that are counted for a line fit into words of 32 bits if its lists are not longer. -/
theorem exponents_lt_of_ofLine {line : String} {relation : Relation} (hread : ofLine line = .ok relation)
    (hentries : ∀ field ∈ (Line.fields ':' (trimEnd line.toList)).tail, entryCount field < 2 ^ 32) :
    (∀ f ∈ relation.rational, f.e < 2 ^ 32) ∧ ∀ f ∈ relation.algebraic, f.e < 2 ^ 32 := by
  obtain ⟨a, b, rational, algebraic, hshape, hlists⟩ := ofChars_eq_ok_iff_shape.mp hread
  obtain ⟨pair, hfields, -⟩ := shape_iff.mp hshape
  rw [hfields, List.tail_cons, List.forall_mem_cons, List.forall_mem_singleton] at hentries
  rcases hlists with ⟨-, -, roots, -, rfl⟩ | ⟨-, ps, qs, hps, hqs, rfl⟩
  · simp [ofRoots]
  · rw [← length_eq_entryCount hps.1, ← length_eq_entryCount hqs.1] at hentries
    exact exponents_lt_ofPrimes hentries.1 hentries.2

/-- The ideals of the reduced relation are those that its line contributes. -/
theorem exists_contributes {line : String} {relation : Relation} (hread : ofLine line = .ok relation) :
    ∃ left right, Contributes line.toList relation.a relation.b left right ∧
      relation.reduced.ideals = left ++ right ∧ (relation.b = 0 → relation.reduced = relation) := by
  obtain ⟨a, b, rational, algebraic, hshape, hlists⟩ := ofChars_eq_ok_iff_shape.mp hread
  rcases hlists with ⟨rfl, -, roots, hroots, rfl⟩ | ⟨hb, ps, qs, hps, hqs, rfl⟩
  · refine ⟨_, _, ⟨rational, algebraic, hshape, .inr ⟨rfl, roots, hroots, rfl, rfl⟩⟩, ?_, ?_⟩
    · rw [reduced_ofRoots, ideals_ofRoots]
      rfl
    · exact fun _ => reduced_ofRoots a roots
  · refine ⟨_, _, ⟨rational, algebraic, hshape, .inl ⟨hb, ps, qs, hps, hqs, rfl, rfl⟩⟩, ?_, ?_⟩
    · exact ideals_reduced_ofPrimes hb ps qs
    · exact fun hfree => absurd hfree (Nat.ne_of_gt hb)

/-! ## Sides -/

theorem isRational_rational (p : ℕ) : (Ideal.rational p).isRational = true :=
  beq_self_eq_true _

theorem isRational_eq_false_of_le {p r : ℕ} (hr : r ≤ p) (hp : p ≤ 2 ^ 64 - 3) :
    (⟨p, r⟩ : Ideal).isRational = false := by
  have hroot : Ideal.rationalRoot = 2 ^ 64 - 2 := rfl
  have hlt : r < Ideal.rationalRoot := by omega
  exact beq_false_of_ne hlt.ne

/-- Exactly the ideals of the rational side have the rational root. -/
theorem Contributes.isRational {line : List Char} {a : ℤ} {b : ℕ} {left right : List Ideal}
    (h : Contributes line a b left right) :
    (∀ ideal ∈ left, ideal.isRational = true) ∧ ∀ ideal ∈ right, ideal.isRational = false := by
  obtain ⟨rational, algebraic, hshape, hsides⟩ := h
  obtain ⟨hlow, hhigh, -⟩ := hshape.bounds
  rcases hsides with ⟨-, ps, qs, -, ⟨-, hqs⟩, rfl, rfl⟩ | ⟨-, roots, ⟨-, -, hroots⟩, rfl, rfl⟩
  · simp only [List.forall_mem_map]
    refine ⟨fun p _ => isRational_rational p, fun q hq => ?_⟩
    have hmem : q ∈ qs := List.count_pos_iff.mp (mem_oddPrimes.mp hq).pos
    obtain ⟨htwo, hmax⟩ := hqs q hmem
    exact isRational_eq_false_of_le (Line.findRoot_le (by omega)) hmax
  · simp only [List.forall_mem_map, List.forall_mem_singleton]
    exact ⟨isRational_rational _, fun r hr => isRational_eq_false_of_le (hroots r hr) (by omega)⟩

/-- The ideals of a relation that was read and reduced are those that its line contributes, the rational side
first.  They are distinct and the rational root tells the sides apart; nothing is reduced in a free relation,
and bounds select the ideals whose primes reach the bound of their side. -/
theorem reduced_ideals_of_line {line : String} {relation : Relation} (hread : ofLine line = .ok relation)
    (hentries : ∀ field ∈ (Line.fields ':' (trimEnd line.toList)).tail, entryCount field < 2 ^ 32) :
    ((∀ f ∈ relation.rational, f.e < 2 ^ 32) ∧ ∀ f ∈ relation.algebraic, f.e < 2 ^ 32) ∧
      (∃ left right, Contributes line.toList relation.a relation.b left right ∧
        relation.reduced.ideals = left ++ right ∧
        (∀ ideal ∈ left, ideal.isRational = true) ∧ ∀ ideal ∈ right, ideal.isRational = false) ∧
      (relation.b = 0 → relation.reduced = relation) ∧
      relation.reduced.ideals.Nodup ∧
      ∀ bounds : Bounds,
        relation.reduced.idealsAbove bounds = relation.reduced.ideals.filter bounds.admits ∧
        relation.idealsAbove bounds = relation.ideals.filter bounds.admits := by
  have hproper := proper_of_ofLine hread
  obtain ⟨left, right, hcontributes, hideals, hfree⟩ := exists_contributes hread
  refine ⟨exponents_lt_of_ofLine hread hentries,
    ⟨left, right, hcontributes, hideals, hcontributes.isRational⟩, hfree, hproper.reduced.nodup_ideals, ?_⟩
  intro bounds
  exact ⟨hproper.reduced.idealsAbove_eq bounds, hproper.idealsAbove_eq bounds⟩

/-- The prime two is listed twice, the prime eleven three times under two spellings. -/
theorem reduced_ideals_of_line_sample :
    ∃ relation, ofLine "-7,3:b,2,B,2,0b:5,d,d,d" = .ok relation ∧
      relation.reduced.ideals = [⟨11, 2 ^ 64 - 2⟩, ⟨5, 1⟩, ⟨13, 2⟩] ∧
      (∃ left right, Contributes "-7,3:b,2,B,2,0b:5,d,d,d".toList (-7) 3 left right ∧
        left ++ right = [⟨11, 2 ^ 64 - 2⟩, ⟨5, 1⟩, ⟨13, 2⟩]) ∧
      relation.reduced.idealsAbove ⟨12, 6⟩ = [⟨13, 2⟩] := by
  have hread : ofLine "-7,3:b,2,B,2,0b:5,d,d,d" =
      .ok ⟨-7, 3, [⟨11, 3⟩, ⟨2, 2⟩], [⟨5, 1, 1⟩, ⟨13, 2, 3⟩]⟩ := by
    decide +kernel
  have hideals : (reduced ⟨-7, 3, [⟨11, 3⟩, ⟨2, 2⟩], [⟨5, 1, 1⟩, ⟨13, 2, 3⟩]⟩).ideals =
      [⟨11, 2 ^ 64 - 2⟩, ⟨5, 1⟩, ⟨13, 2⟩] := by
    decide +kernel
  obtain ⟨-, ⟨left, right, hcontributes, hsides, -⟩, -, -, hbounds⟩ :=
    reduced_ideals_of_line hread (by decide +kernel)
  refine ⟨_, hread, hideals, ⟨left, right, hcontributes, hsides.symm.trans hideals⟩, ?_⟩
  rw [(hbounds ⟨12, 6⟩).1, hideals]
  decide +kernel

end SieveFilter.Relation
