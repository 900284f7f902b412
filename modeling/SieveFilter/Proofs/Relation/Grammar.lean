import SieveFilter.Proofs.Relation.Lists

/-!
# The grammar of lines

A line is read when it is written as the format says, and only then.  Blanks may stand at its end, around the
coordinates, around the lists and around their entries.  The rational list of a free relation is not looked at.
-/

namespace SieveFilter.Relation

open Text

/-- The field holds the coordinates, an integer and a natural number of 64 bits, around its first comma. -/
def Pair (field : List Char) (a : ℤ) (b : ℕ) : Prop :=
  ∃ left right, field = left ++ ',' :: right ∧ ',' ∉ left ∧
    Numeral.SignedWord left a ∧ Numeral.Word 10 right b

/-- The line has three fields, the first one of which holds the coordinates. -/
def Shape (line : List Char) (a : ℤ) (b : ℕ) (rational algebraic : List Char) : Prop :=
  ∃ pair, EndTrimmed line (pair ++ ':' :: rational ++ ':' :: algebraic) ∧
    ':' ∉ pair ∧ ':' ∉ rational ∧ ':' ∉ algebraic ∧ Pair pair a b

/-- The field lists numbers that can be primes of ideals. -/
def ListsPrimes (field : List Char) (primes : List ℕ) : Prop :=
  Lists field primes ∧ ∀ p ∈ primes, 2 ≤ p ∧ p ≤ 2 ^ 64 - 3

/-- The field lists distinct roots above the prime. -/
def ListsRoots (p : ℕ) (field : List Char) (roots : List ℕ) : Prop :=
  Lists field roots ∧ roots.Nodup ∧ ∀ r ∈ roots, r ≤ p

/-- The line is written as the format says. -/
def Grammatical (line : List Char) : Prop :=
  ∃ a b rational algebraic, Shape line a b rational algebraic ∧
    (b = 0 ∧ 2 ≤ a.natAbs ∧ (∃ roots, ListsRoots a.natAbs algebraic roots) ∨
      0 < b ∧ (∃ ps, ListsPrimes rational ps) ∧ ∃ qs, ListsPrimes algebraic qs)

/-! ## Readers -/

theorem isPrimeLike_iff_le {p : ℕ} : Line.isPrimeLike p = true ↔ 2 ≤ p ∧ p ≤ 2 ^ 64 - 3 := by
  have hroot : p < Ideal.rationalRoot ↔ p ≤ 2 ^ 64 - 3 := Nat.lt_iff_le_pred (by decide)
  rw [Line.isPrimeLike_iff, hroot]

theorem readPrimes_eq_ok_iff_listsPrimes {field : List Char} {primes : List ℕ} :
    Line.readPrimes field = .ok primes ↔ ListsPrimes field primes := by
  simp only [Line.readPrimes_eq_ok_iff, readEntries_eq_ok_iff, isPrimeLike_iff_le, ListsPrimes]

theorem readRoots_eq_ok_iff {p : ℕ} {field : List Char} {roots : List ℕ} :
    Line.readEntries field = .ok roots ∧ Line.checkRoots p [] roots = .ok () ↔
      ListsRoots p field roots := by
  simp [readEntries_eq_ok_iff, Line.checkRoots_eq_ok_iff, ListsRoots]

theorem readPair_eq_ok_iff_pair {field : List Char} {a : ℤ} {b : ℕ} :
    Line.readPair field = .ok (a, b) ↔ Pair field a b := by
  simp only [Line.readPair_eq_ok_iff, splitFirst?_eq_some_iff, Numeral.readInt_trim_eq_ok_iff,
    Numeral.readNat_trim_eq_ok_iff (show 0 < 10 by decide) (show 10 ≤ 16 by decide), Pair, and_assoc]

theorem shape_iff {line : List Char} {a : ℤ} {b : ℕ} {rational algebraic : List Char} :
    Shape line a b rational algebraic ↔
      ∃ pair, Line.fields ':' (trimEnd line) = [pair, rational, algebraic] ∧
        Line.readPair pair = .ok (a, b) := by
  have hparts (pair : List Char) :
      [':'].intercalate [pair, rational, algebraic] = pair ++ ':' :: rational ++ ':' :: algebraic := by
    simp [List.intercalate_cons_cons]
  simp only [Shape, ← trimEnd_eq_iff, fields_eq_iff, readPair_eq_ok_iff_pair, hparts,
    List.forall_mem_cons]
  constructor
  · rintro ⟨pair, hline, hpair, hrational, halgebraic, hcoordinates⟩
    refine ⟨pair, ⟨List.cons_ne_nil _ _, ?_, hline⟩, hcoordinates⟩
    exact ⟨hpair, hrational, halgebraic, List.forall_mem_nil _⟩
  · rintro ⟨pair, ⟨-, ⟨hpair, hrational, halgebraic, -⟩, hline⟩, hcoordinates⟩
    exact ⟨pair, hline, hpair, hrational, halgebraic, hcoordinates⟩

theorem Shape.bounds {line : List Char} {a : ℤ} {b : ℕ} {rational algebraic : List Char}
    (h : Shape line a b rational algebraic) : -2 ^ 63 ≤ a ∧ a < 2 ^ 63 ∧ b < 2 ^ 64 := by
  obtain ⟨pair, -, -, -, -, left, right, -, -, ⟨_, -, -, hlow, hhigh⟩, ⟨_, -, -, hb⟩⟩ := h
  exact ⟨hlow, hhigh, hb⟩

/-- A line is read as the relation that its fields make up. -/
theorem ofChars_eq_ok_iff_shape {line : List Char} {relation : Relation} :
    ofChars line = .ok relation ↔
      ∃ a b rational algebraic, Shape line a b rational algebraic ∧
        (b = 0 ∧ 2 ≤ a.natAbs ∧ (∃ roots, ListsRoots a.natAbs algebraic roots ∧ ofRoots a roots = relation) ∨
          0 < b ∧ ∃ ps qs, ListsPrimes rational ps ∧ ListsPrimes algebraic qs ∧
            ofPrimes a b ps qs = relation) := by
  rw [ofChars_eq_ok_iff]
  constructor
  · rintro ⟨pair, rational, algebraic, a, b, hfields, hpair, hread⟩
    refine ⟨a, b, rational, algebraic, shape_iff.mpr ⟨pair, hfields, hpair⟩, ?_⟩
    by_cases hb : b = 0
    · rw [if_pos hb] at hread
      obtain ⟨hprime, roots, hroots, hcheck, hrelation⟩ := Line.readFree_eq_ok_iff.mp hread
      exact .inl ⟨hb, (isPrimeLike_iff_le.mp hprime).1, roots, readRoots_eq_ok_iff.mp ⟨hroots, hcheck⟩,
        hrelation⟩
    · rw [if_neg hb] at hread
      obtain ⟨ps, qs, hps, hqs, hrelation⟩ := Line.readFactored_eq_ok_iff.mp hread
      exact .inr ⟨Nat.pos_of_ne_zero hb, ps, qs, readPrimes_eq_ok_iff_listsPrimes.mp hps,
        readPrimes_eq_ok_iff_listsPrimes.mp hqs, hrelation⟩
  · rintro ⟨a, b, rational, algebraic, hshape, hlists⟩
    obtain ⟨pair, hfields, hpair⟩ := shape_iff.mp hshape
    refine ⟨pair, rational, algebraic, a, b, hfields, hpair, ?_⟩
    rcases hlists with ⟨hb, htwo, roots, hroots, hrelation⟩ | ⟨hb, ps, qs, hps, hqs, hrelation⟩
    · obtain ⟨hlow, hhigh, -⟩ := hshape.bounds
      obtain ⟨hentries, hcheck⟩ := readRoots_eq_ok_iff.mpr hroots
      rw [if_pos hb]
      exact Line.readFree_eq_ok_iff.mpr
        ⟨isPrimeLike_iff_le.mpr ⟨htwo, by omega⟩, roots, hentries, hcheck, hrelation⟩
    · rw [if_neg (Nat.ne_of_gt hb)]
      exact Line.readFactored_eq_ok_iff.mpr
        ⟨ps, qs, readPrimes_eq_ok_iff_listsPrimes.mpr hps, readPrimes_eq_ok_iff_listsPrimes.mpr hqs,
          hrelation⟩

theorem exists_ofLine_iff {line : String} :
    (∃ relation, ofLine line = .ok relation) ↔ Grammatical line.toList := by
  simp only [ofLine, ofChars_eq_ok_iff_shape, Grammatical]
  constructor
  · rintro ⟨relation, a, b, rational, algebraic, hshape, hlists⟩
    refine ⟨a, b, rational, algebraic, hshape, ?_⟩
    rcases hlists with ⟨hb, htwo, roots, hroots, -⟩ | ⟨hb, ps, qs, hps, hqs, -⟩
    · exact .inl ⟨hb, htwo, roots, hroots⟩
    · exact .inr ⟨hb, ⟨ps, hps⟩, qs, hqs⟩
  · rintro ⟨a, b, rational, algebraic, hshape, ⟨hb, htwo, roots, hroots⟩ | ⟨hb, ⟨ps, hps⟩, qs, hqs⟩⟩
    · exact ⟨_, a, b, rational, algebraic, hshape, .inl ⟨hb, htwo, roots, hroots, rfl⟩⟩
    · exact ⟨_, a, b, rational, algebraic, hshape, .inr ⟨hb, ps, qs, hps, hqs, rfl⟩⟩

/-! ## Lines that are not read -/

theorem not_grammatical_of_allBlank {line : List Char} (hblank : AllBlank line) :
    ¬ Grammatical line := by
  rintro ⟨a, b, rational, algebraic, ⟨pair, ⟨⟨blanks, -, rfl⟩, -⟩, -⟩, -⟩
  have hcolon : ':' ∉ pair ++ ':' :: rational ++ ':' :: algebraic ++ blanks :=
    hblank.notMem (by decide)
  exact hcolon (by simp)

theorem not_pair_hash (rest : List Char) (a : ℤ) (b : ℕ) : ¬ Pair ('#' :: rest) a b := by
  rintro ⟨left, right, hfield, -, ⟨first, hfirst, hsigned, -⟩, -⟩
  cases left with
  | nil => exact absurd (List.cons.inj hfield).1 (by decide)
  | cons c left =>
    obtain ⟨rfl, -⟩ := List.cons.inj hfield
    obtain ⟨core, rfl⟩ := List.head?_eq_some_iff.mp (hfirst.head?_eq (by decide))
    exact Numeral.not_signed_cons (by decide) (by decide) (by decide) core a hsigned

theorem not_grammatical_hash (rest : List Char) : ¬ Grammatical ('#' :: rest) := by
  rintro ⟨a, b, rational, algebraic, ⟨pair, ⟨⟨blanks, -, hline⟩, -⟩, -, -, -, hpair⟩, -⟩
  cases pair with
  | nil => exact absurd (List.cons.inj hline).1 (by decide)
  | cons c pair =>
    obtain ⟨rfl, -⟩ := List.cons.inj hline
    exact not_pair_hash pair a b hpair

theorem exists_error_of_not_grammatical {line : String} (h : ¬ Grammatical line.toList) :
    ∃ cause, ofLine line = .error cause := by
  cases hread : ofLine line with
  | error cause => exact ⟨cause, rfl⟩
  | ok relation => exact absurd (exists_ofLine_iff.mp ⟨relation, hread⟩) h

/-- Lines are read exactly when they follow the grammar, and no blank line and no comment does. -/
theorem readable_iff_grammatical :
    (∀ line, (∃ relation, ofLine line = .ok relation) ↔ Grammatical line.toList) ∧
      (∀ line, AllBlank line.toList → ∃ cause, ofLine line = .error cause) ∧
      ∀ comment, ∃ cause, ofLine ("#" ++ comment) = .error cause := by
  refine ⟨fun line => exists_ofLine_iff, ?_, ?_⟩
  · intro line hblank
    exact exists_error_of_not_grammatical (not_grammatical_of_allBlank hblank)
  · intro comment
    apply exists_error_of_not_grammatical
    rw [String.toList_append]
    exact not_grammatical_hash comment.toList

/-- Signs, blanks and repeated primes are allowed, and a line of blanks is none. -/
theorem readable_iff_grammatical_sample :
    Grammatical " -8 , +3 : 2,+2 :b\t".toList ∧ AllBlank " \t\u00a0".toList ∧
      ∃ cause, ofLine " \t\u00a0" = .error cause := by
  have hread : ∃ relation, ofLine " -8 , +3 : 2,+2 :b\t" = .ok relation :=
    ⟨⟨-8, 3, [⟨2, 2⟩], [⟨11, 1, 1⟩]⟩, by decide +kernel⟩
  have hblank : AllBlank " \t\u00a0".toList := List.all_eq_true.mp (by decide +kernel)
  exact ⟨(readable_iff_grammatical.1 _).mp hread, hblank, readable_iff_grammatical.2.1 _ hblank⟩

end SieveFilter.Relation
