import SieveFilter.Proofs.Relation.Multiplicities
import SieveFilter.Proofs.Relation.Readers

/-!
# Relations that were read

A relation that comes from a line is proper: it lists no prime and no root twice, no algebraic root is the
rational one, and the ideals of a free relation lie above one prime.
-/

namespace SieveFilter

namespace Relation

/-- A relation lists primes and roots at most once, keeps the rational root out of the algebraic side, and
has all its ideals above one prime when it is free. -/
structure Proper (relation : Relation) : Prop where
  rational_nodup : (relation.rational.map RationalFactor.p).Nodup
  algebraic_nodup : (relation.algebraic.map fun f => (f.p, f.r)).Nodup
  root_ne : ∀ f ∈ relation.algebraic, f.r ≠ Ideal.rationalRoot
  prime_eq : relation.isFree = true → ∀ f ∈ relation.algebraic, f.p = relation.a.natAbs

/-! ## Reading -/

namespace Line

/-- A root is at most its prime. -/
theorem findRoot_le {a : ℤ} {b p : ℕ} (hp : 0 < p) : findRoot a b p ≤ p := by
  unfold findRoot
  split
  · exact Nat.le_refl p
  · generalize a % p * (bezout (b % p) p % p) = x
    have hlt : x % (p : ℤ) < p := Int.emod_lt_of_pos x (by omega)
    have hnonneg : 0 ≤ x % (p : ℤ) := Int.emod_nonneg x (by omega)
    omega

theorem proper_ofRoots {a : ℤ} {roots : List ℕ} (hprime : isPrimeLike a.natAbs = true)
    (hcheck : checkRoots a.natAbs [] roots = .ok ()) : (ofRoots a roots).Proper := by
  obtain ⟨hnodup, hroots⟩ := checkRoots_eq_ok_iff.mp hcheck
  obtain ⟨-, hbelow⟩ := isPrimeLike_iff.mp hprime
  refine ⟨List.nodup_singleton _, ?_, ?_, ?_⟩
  · rw [ofRoots, List.map_map]
    apply hnodup.map
    intro r s hrs
    simpa using hrs
  · simp only [ofRoots, List.forall_mem_map]
    intro r hr
    exact Nat.ne_of_lt (Nat.lt_of_le_of_lt (hroots r hr).1 hbelow)
  · simp [ofRoots]

theorem proper_ofPrimes {a : ℤ} {b : ℕ} (hb : b ≠ 0) (ps : List ℕ) {qs : List ℕ}
    (hqs : ∀ q ∈ qs, isPrimeLike q = true) : (ofPrimes a b ps qs).Proper := by
  refine ⟨?_, ?_, ?_, ?_⟩
  · simpa [ofPrimes, Function.comp_def] using nodup_countPrimes ps
  · apply List.Nodup.of_map Prod.fst
    simpa [ofPrimes, Function.comp_def] using nodup_countPrimes qs
  · simp only [ofPrimes, List.forall_mem_map]
    intro entry hentry
    obtain ⟨htwo, hbelow⟩ := isPrimeLike_iff.mp (hqs entry.1 (mem_of_mem_countPrimes hentry))
    have hle : findRoot a b entry.1 ≤ entry.1 := findRoot_le (by omega)
    exact Nat.ne_of_lt (Nat.lt_of_le_of_lt hle hbelow)
  · intro hfree
    simp [ofPrimes, isFree, hb] at hfree

end Line

/-- A relation that comes from a line is proper. -/
theorem proper_of_ofLine {line : String} {relation : Relation}
    (hread : ofLine line = .ok relation) : relation.Proper := by
  obtain ⟨pair, rational, algebraic, a, b, -, -, hread⟩ := ofChars_eq_ok_iff.mp hread
  by_cases hb : b = 0
  · rw [if_pos hb] at hread
    obtain ⟨hprime, roots, -, hcheck, rfl⟩ := Line.readFree_eq_ok_iff.mp hread
    exact Line.proper_ofRoots hprime hcheck
  · rw [if_neg hb] at hread
    obtain ⟨ps, qs, -, hqs, rfl⟩ := Line.readFactored_eq_ok_iff.mp hread
    exact Line.proper_ofPrimes hb ps (Line.readPrimes_eq_ok_iff.mp hqs).2

end Relation

end SieveFilter
