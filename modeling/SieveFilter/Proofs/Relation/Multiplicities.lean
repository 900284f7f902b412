import SieveFilter.Proofs.Support.FirstOccurrences
import SieveFilter.Relation.Line
import Mathlib.Algebra.GroupWithZero.Nat
import Mathlib.Data.List.Nodup
import Mathlib.Data.Nat.Notation

/-!
# Primes with multiplicities

Counting the primes of a list keeps each prime once, with the number of its occurrences, in order of first
occurrence.  A list with multiplicities is what comes of counting the list in which every prime is repeated.
-/

namespace SieveFilter.Relation.Line

theorem countPrime_append {counted : List (ℕ × ℕ)} {p : ℕ} (hnew : p ∉ counted.map Prod.fst)
    (rest : List (ℕ × ℕ)) : countPrime (counted ++ rest) p = counted ++ countPrime rest p := by
  induction counted with
  | nil => rfl
  | cons first counted ih =>
    obtain ⟨q, e⟩ := first
    obtain ⟨hne, hrest⟩ := not_or.mp fun h => hnew (List.mem_cons.mpr h)
    rw [List.cons_append, countPrime, if_neg (Ne.symm hne), ih hrest, List.cons_append]

theorem countPrime_of_new {counted : List (ℕ × ℕ)} {p : ℕ} (hnew : p ∉ counted.map Prod.fst) :
    countPrime counted p = counted ++ [(p, 1)] := by
  simpa [countPrime] using countPrime_append hnew []

/-- One more occurrence of a prime that is counted raises its own number only. -/
theorem countPrime_map {primes : List ℕ} {p : ℕ} (hnodup : primes.Nodup) (hp : p ∈ primes)
    (number : ℕ → ℕ) :
    countPrime (primes.map fun q => (q, number q)) p =
      primes.map fun q => (q, number q + if q = p then 1 else 0) := by
  induction primes with
  | nil => cases hp
  | cons q rest ih =>
    obtain ⟨hq, hrest⟩ := List.nodup_cons.mp hnodup
    rw [List.map_cons, List.map_cons, countPrime]
    split
    next heq =>
      subst heq
      rw [List.cons.injEq]
      refine ⟨rfl, List.map_congr_left fun r hr => ?_⟩
      rw [if_neg (ne_of_mem_of_not_mem hr hq), Nat.add_zero]
    next hne =>
      have hmem : p ∈ rest := (List.mem_cons.mp hp).resolve_left (Ne.symm hne)
      rw [ih hrest hmem, Nat.add_zero]

/-- Primes are counted in order of first occurrence, each with the number of its occurrences. -/
theorem countPrimes_eq (primes : List ℕ) :
    countPrimes primes = primes.eraseDups.map fun p => (p, primes.count p) := by
  induction primes using List.reverseRecOn with
  | nil => rfl
  | append_singleton primes p ih =>
    have hcount (q : ℕ) : (primes ++ [p]).count q = primes.count q + if q = p then 1 else 0 := by
      rw [List.count_append, List.count_singleton]
      simp only [beq_iff_eq, eq_comm (a := p)]
    have hstep : countPrimes (primes ++ [p]) = countPrime (countPrimes primes) p := by
      rw [countPrimes, List.foldl_append]
      rfl
    rw [hstep, ih, eraseDups_concat]
    simp only [hcount]
    split
    next hmem => exact countPrime_map (nodup_eraseDups primes) (List.mem_eraseDups.mpr hmem) _
    next hnew =>
      have hkeys : p ∉ (primes.eraseDups.map fun q => (q, primes.count q)).map Prod.fst := by
        simpa using hnew
      rw [countPrime_of_new hkeys, List.map_append]
      congr 1
      · apply List.map_congr_left
        intro q hq
        rw [if_neg (ne_of_mem_of_not_mem (List.mem_eraseDups.mp hq) hnew), Nat.add_zero]
      · simp [List.count_eq_zero_of_not_mem hnew]

/-- The primes of a list are counted under one entry each. -/
theorem nodup_countPrimes (primes : List ℕ) : ((countPrimes primes).map Prod.fst).Nodup := by
  simpa [countPrimes_eq, Function.comp_def] using nodup_eraseDups primes

theorem mem_of_mem_countPrimes {primes : List ℕ} {entry : ℕ × ℕ}
    (hentry : entry ∈ countPrimes primes) : entry.1 ∈ primes := by
  rw [countPrimes_eq] at hentry
  obtain ⟨p, hp, rfl⟩ := List.mem_map.mp hentry
  exact List.mem_eraseDups.mp hp

/-! ## Exponents -/

/-- Exponents are positive. -/
theorem pos_of_mem_countPrimes (primes : List ℕ) : ∀ entry ∈ countPrimes primes, 1 ≤ entry.2 := by
  rw [countPrimes_eq, List.forall_mem_map]
  intro p hp
  exact List.count_pos_iff.mpr (List.mem_eraseDups.mp hp)

theorem sum_countPrime (counted : List (ℕ × ℕ)) (p : ℕ) :
    ((countPrime counted p).map Prod.snd).sum = (counted.map Prod.snd).sum + 1 := by
  induction counted with
  | nil => rfl
  | cons first rest ih =>
    obtain ⟨q, e⟩ := first
    rw [countPrime]
    split
    · simp only [List.map_cons, List.sum_cons]
      omega
    · simp only [List.map_cons, List.sum_cons, ih]
      omega

theorem sum_foldl_countPrime (primes : List ℕ) (counted : List (ℕ × ℕ)) :
    ((primes.foldl countPrime counted).map Prod.snd).sum =
      (counted.map Prod.snd).sum + primes.length := by
  induction primes generalizing counted with
  | nil => rfl
  | cons p rest ih =>
    rw [List.foldl_cons, ih, sum_countPrime, List.length_cons]
    omega

/-- Every occurrence is counted. -/
theorem sum_countPrimes (primes : List ℕ) :
    ((countPrimes primes).map Prod.snd).sum = primes.length := by
  rw [countPrimes, sum_foldl_countPrime, List.map_nil, List.sum_nil, Nat.zero_add]

/-! ## Repeated primes -/

/-- The list in which every prime is repeated as often as its exponent says. -/
def repeated (counted : List (ℕ × ℕ)) : List ℕ :=
  counted.flatMap fun (p, e) => List.replicate e p

/-- The occurrences of a new prime make one entry. -/
theorem foldl_countPrime_replicate {counted : List (ℕ × ℕ)} {p : ℕ}
    (hnew : p ∉ counted.map Prod.fst) (e : ℕ) :
    (List.replicate (e + 1) p).foldl countPrime counted = counted ++ [(p, e + 1)] := by
  induction e with
  | zero => exact countPrime_of_new hnew
  | succ e ih =>
    rw [List.replicate_succ', List.foldl_append, ih, List.foldl_cons, List.foldl_nil,
      countPrime_append hnew, countPrime, if_pos rfl]

theorem foldl_countPrime_repeated {before counted : List (ℕ × ℕ)}
    (hnodup : ((before ++ counted).map Prod.fst).Nodup) (hpos : ∀ entry ∈ counted, 1 ≤ entry.2) :
    (repeated counted).foldl countPrime before = before ++ counted := by
  induction counted generalizing before with
  | nil => simp [repeated]
  | cons first rest ih =>
    obtain ⟨p, e⟩ := first
    obtain ⟨hfirst, hrest⟩ := List.forall_mem_cons.mp hpos
    have hnew : p ∉ before.map Prod.fst := by
      rw [List.map_append, List.map_cons] at hnodup
      exact fun hmem => List.disjoint_of_nodup_append hnodup hmem List.mem_cons_self
    obtain ⟨k, rfl⟩ := Nat.exists_eq_add_of_le' hfirst
    have hexpanded : repeated ((p, k + 1) :: rest) = List.replicate (k + 1) p ++ repeated rest := rfl
    have hassoc : before ++ [(p, k + 1)] ++ rest = before ++ (p, k + 1) :: rest := by simp
    rw [hexpanded, List.foldl_append, foldl_countPrime_replicate hnew, ih (hassoc ▸ hnodup) hrest,
      hassoc]

/-- A list with multiplicities is found again from its repeated primes. -/
theorem countPrimes_repeated {counted : List (ℕ × ℕ)} (hnodup : (counted.map Prod.fst).Nodup)
    (hpos : ∀ entry ∈ counted, 1 ≤ entry.2) : countPrimes (repeated counted) = counted :=
  foldl_countPrime_repeated hnodup hpos

end SieveFilter.Relation.Line
