import SieveFilter.Relation.Line
import Mathlib.Data.Int.Notation
import Mathlib.Data.List.Forall2
import Mathlib.Data.List.Nodup
import Mathlib.Data.Nat.Notation

/-!
# What the readers of a line return

Each reader succeeds when those that it calls succeed and its own checks are passed, with the result that is
made of theirs.
-/

namespace SieveFilter.Relation

open Text (Numeral.readInt Numeral.readNat Numeral.maxSigned Numeral.maxWord trim trimEnd)

/-- The free relation of a prime with roots. -/
def ofRoots (a : ℤ) (roots : List ℕ) : Relation where
  a := a
  b := 0
  rational := [⟨a.natAbs, 1⟩]
  algebraic := roots.map (⟨a.natAbs, ·, 1⟩)

/-- The relation of a pair with the primes of its two norms. -/
def ofPrimes (a : ℤ) (b : ℕ) (ps qs : List ℕ) : Relation where
  a := a
  b := b
  rational := (Line.countPrimes ps).map fun (p, e) => ⟨p, e⟩
  algebraic := (Line.countPrimes qs).map fun (q, e) => ⟨q, findRoot a b q, e⟩

namespace Line

section

variable {α β : Type}

theorem bind_eq_ok_iff {result : Except LineError α} {next : α → Except LineError β} {y : β} :
    result >>= next = .ok y ↔ ∃ x, result = .ok x ∧ next x = .ok y := by
  cases result with
  | error cause => simp [bind, Except.bind]
  | ok x => simp [bind, Except.bind]

theorem mapM_eq_ok_iff {read : α → Except LineError β} {tokens : List α} {values : List β} :
    tokens.mapM read = .ok values ↔ List.Forall₂ (fun token value => read token = .ok value) tokens values := by
  induction tokens generalizing values with
  | nil => simp [pure, Except.pure, eq_comm]
  | cons token rest ih =>
    simp only [List.mapM_cons, bind_eq_ok_iff, ih, List.forall₂_cons_left_iff, pure, Except.pure,
      Except.ok.injEq]
    constructor
    · rintro ⟨value, hvalue, others, hothers, rfl⟩
      exact ⟨value, others, hvalue, hothers, rfl⟩
    · rintro ⟨value, others, hvalue, hothers, rfl⟩
      exact ⟨value, hvalue, others, hothers, rfl⟩

end

theorem isPrimeLike_iff {p : ℕ} : isPrimeLike p = true ↔ 2 ≤ p ∧ p < Ideal.rationalRoot := by
  simp [isPrimeLike]

/-- Primes are entries that can be primes of ideals. -/
theorem readPrimes_eq_ok_iff {field : List Char} {primes : List ℕ} :
    readPrimes field = .ok primes ↔
      readEntries field = .ok primes ∧ ∀ p ∈ primes, isPrimeLike p = true := by
  rw [readPrimes, bind_eq_ok_iff]
  constructor
  · rintro ⟨entries, hentries, hchecked⟩
    split at hchecked
    next => cases hchecked
    next hfind =>
      cases hchecked
      exact ⟨hentries, fun p hp => by simpa using List.find?_eq_none.mp hfind p hp⟩
  · rintro ⟨hentries, hlike⟩
    have hfind : primes.find? (!isPrimeLike ·) = none :=
      List.find?_eq_none.mpr fun p hp => by simp [hlike p hp]
    exact ⟨primes, hentries, by rw [hfind]⟩

/-- Roots pass the checks when they are at most the prime, and distinct from each other and from those
seen. -/
theorem checkRoots_eq_ok_iff {p : ℕ} {seen roots : List ℕ} :
    checkRoots p seen roots = .ok () ↔ roots.Nodup ∧ ∀ r ∈ roots, r ≤ p ∧ r ∉ seen := by
  induction roots generalizing seen with
  | nil => simp [checkRoots]
  | cons r rest ih =>
    rw [checkRoots, List.nodup_cons, List.forall_mem_cons]
    by_cases habove : p < r
    · simp [habove, Nat.not_le_of_lt habove]
    · rw [if_neg habove]
      by_cases hseen : seen.contains r = true
      · have hmem : r ∈ seen := by simpa using hseen
        simp [hmem]
      · rw [if_neg hseen, ih]
        have hnew : r ∉ seen := by simpa using hseen
        constructor
        · rintro ⟨hnodup, hrest⟩
          have hr : r ∉ rest := fun hr => (hrest r hr).2 List.mem_cons_self
          exact ⟨⟨hr, hnodup⟩, ⟨Nat.le_of_not_lt habove, hnew⟩,
            fun s hs => ⟨(hrest s hs).1, fun hmem => (hrest s hs).2 (List.mem_cons_of_mem r hmem)⟩⟩
        · rintro ⟨⟨hr, hnodup⟩, -, hrest⟩
          refine ⟨hnodup, fun s hs => ⟨(hrest s hs).1, ?_⟩⟩
          intro hmem
          rcases List.mem_cons.mp hmem with rfl | hmem
          · exact hr hs
          · exact (hrest s hs).2 hmem

/-- A pair is read from what stands before and after the first comma. -/
theorem readPair_eq_ok_iff {field : List Char} {a : ℤ} {b : ℕ} :
    readPair field = .ok (a, b) ↔
      ∃ left right, splitFirst? ',' field = some (left, right) ∧
        Numeral.readInt Numeral.maxSigned (trim left) = .ok a ∧
        Numeral.readNat 10 Numeral.maxWord (trim right) = .ok b := by
  unfold readPair
  cases hsplit : splitFirst? ',' field with
  | none => simp
  | some halves =>
    obtain ⟨left, right⟩ := halves
    cases ha : Numeral.readInt Numeral.maxSigned (trim left) with
    | error cause => simp [ha]
    | ok a' =>
      cases hb : Numeral.readNat 10 Numeral.maxWord (trim right) with
      | error cause => simp [ha, hb]
      | ok b' => simp [ha, hb]

theorem readFree_eq_ok_iff {a : ℤ} {field : List Char} {relation : Relation} :
    readFree a field = .ok relation ↔
      isPrimeLike a.natAbs = true ∧ ∃ roots, readEntries field = .ok roots ∧
        checkRoots a.natAbs [] roots = .ok () ∧ ofRoots a roots = relation := by
  by_cases hprime : isPrimeLike a.natAbs = true
  · simp only [readFree, hprime, Bool.not_true, Bool.false_eq_true, if_false, true_and,
      bind_eq_ok_iff]
    constructor
    · rintro ⟨roots, hroots, ⟨⟩, hcheck, hrelation⟩
      exact ⟨roots, hroots, hcheck, Except.ok.inj hrelation⟩
    · rintro ⟨roots, hroots, hcheck, rfl⟩
      exact ⟨roots, hroots, (), hcheck, rfl⟩
  · simp [readFree, hprime]

theorem readFactored_eq_ok_iff {a : ℤ} {b : ℕ} {rational algebraic : List Char}
    {relation : Relation} :
    readFactored a b rational algebraic = .ok relation ↔
      ∃ ps qs, readPrimes rational = .ok ps ∧ readPrimes algebraic = .ok qs ∧
        ofPrimes a b ps qs = relation := by
  simp only [readFactored, bind_eq_ok_iff]
  constructor
  · rintro ⟨ps, hps, qs, hqs, hrelation⟩
    exact ⟨ps, qs, hps, hqs, Except.ok.inj hrelation⟩
  · rintro ⟨ps, qs, hps, hqs, rfl⟩
    exact ⟨ps, hps, qs, hqs, rfl⟩

end Line

/-- A line is read when it has three fields, and as what its pair says. -/
theorem ofChars_eq_ok_iff {line : List Char} {relation : Relation} :
    ofChars line = .ok relation ↔
      ∃ pair rational algebraic a b,
        Line.fields ':' (trimEnd line) = [pair, rational, algebraic] ∧ Line.readPair pair = .ok (a, b) ∧
        (if b = 0 then Line.readFree a algebraic else Line.readFactored a b rational algebraic) =
          .ok relation := by
  unfold ofChars
  split
  next pair rational algebraic hfields =>
    rw [Line.bind_eq_ok_iff]
    constructor
    · rintro ⟨⟨a, b⟩, hpair, hrelation⟩
      exact ⟨pair, rational, algebraic, a, b, hfields, hpair, hrelation⟩
    · rintro ⟨_, _, _, a, b, heq, hpair, hrelation⟩
      cases hfields.symm.trans heq
      exact ⟨(a, b), hpair, hrelation⟩
  next hcount =>
    constructor
    · intro h
      cases h
    · rintro ⟨pair, rational, algebraic, _, _, hfields, -, -⟩
      exact absurd hfields (hcount pair rational algebraic)

end SieveFilter.Relation
