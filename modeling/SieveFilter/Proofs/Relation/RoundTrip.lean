import SieveFilter.Proofs.Relation.Grammar
import SieveFilter.Proofs.Relation.Multiplicities

/-!
# Relations are read back

A relation is well-formed when its factors are those of a pair or those of a free relation.  What is read from
a line is well-formed, and a well-formed relation is read back from the line that is written for it.
-/

namespace SieveFilter.Relation

open Text

/-- The factors are those of a pair: on either side each prime stands once, and an algebraic prime has the root
that the pair determines. -/
structure Factored (relation : Relation) : Prop where
  rational_nodup : (relation.rational.map RationalFactor.p).Nodup
  algebraic_nodup : (relation.algebraic.map AlgebraicFactor.p).Nodup
  rational_range : ∀ f ∈ relation.rational, 2 ≤ f.p ∧ f.p ≤ 2 ^ 64 - 3 ∧ 1 ≤ f.e
  algebraic_range : ∀ f ∈ relation.algebraic, 2 ≤ f.p ∧ f.p ≤ 2 ^ 64 - 3 ∧ 1 ≤ f.e
  root_eq : ∀ f ∈ relation.algebraic, f.r = findRoot relation.a relation.b f.p
  exponents_lt : (relation.rational.map RationalFactor.e).sum +
    (relation.algebraic.map AlgebraicFactor.e).sum < 2 ^ 32

/-- The factors are those of a free relation: its prime on the rational side, and distinct roots above it. -/
structure Splits (relation : Relation) : Prop where
  two_le : 2 ≤ relation.a.natAbs
  rational_eq : relation.rational = [⟨relation.a.natAbs, 1⟩]
  algebraic_eq : ∀ f ∈ relation.algebraic,
    f.p = relation.a.natAbs ∧ f.r ≤ relation.a.natAbs ∧ f.e = 1
  roots_nodup : (relation.algebraic.map AlgebraicFactor.r).Nodup

/-- The coordinates have 64 bits, and the factors are those of a pair or of a free relation. -/
structure WellFormed (relation : Relation) : Prop where
  a_range : -2 ^ 63 ≤ relation.a ∧ relation.a < 2 ^ 63
  b_lt : relation.b < 2 ^ 64
  factors : 0 < relation.b ∧ relation.Factored ∨ relation.b = 0 ∧ relation.Splits

/-! ## Writing -/

/-- The primes that are written on the rational side, each as often as its exponent says. -/
def rationalEntries (relation : Relation) : List ℕ :=
  if relation.b = 0 then [] else Line.repeated (relation.rational.map fun f => (f.p, f.e))

/-- The primes that are written on the algebraic side, or the roots of a free relation. -/
def algebraicEntries (relation : Relation) : List ℕ :=
  if relation.b = 0 then relation.algebraic.map AlgebraicFactor.r
  else Line.repeated (relation.algebraic.map fun f => (f.p, f.e))

def pairText (a : ℤ) (b : ℕ) : List Char :=
  Numeral.decimalInt a ++ ',' :: Numeral.decimal b

/-- The line of a relation. -/
def toLine (relation : Relation) : String :=
  String.ofList (pairText relation.a relation.b ++ ':' :: listText relation.rationalEntries ++
    ':' :: listText relation.algebraicEntries)

/-! ## Shape -/

theorem forall_mem_pairText {property : Char → Prop} (hminus : property '-') (hcomma : property ',')
    (hdigits : ∀ d < 16, property (Nat.digitChar d)) (a : ℤ) (b : ℕ) :
    ∀ c ∈ pairText a b, property c :=
  List.forall_mem_append.mpr ⟨Numeral.forall_mem_decimalInt hdigits hminus a,
    List.forall_mem_cons.mpr ⟨hcomma, Numeral.forall_mem_decimal hdigits b⟩⟩

theorem pair_pairText {a : ℤ} {b : ℕ} (hlow : -2 ^ 63 ≤ a) (hhigh : a < 2 ^ 63) (hb : b < 2 ^ 64) :
    Pair (pairText a b) a b := by
  have hcomma : ∀ c ∈ Numeral.decimalInt a, c ≠ ',' :=
    Numeral.forall_mem_decimalInt (by decide) (by decide) a
  exact ⟨_, _, rfl, fun h => hcomma _ h rfl, Numeral.signedWord_decimalInt hlow hhigh,
    Numeral.word_decimal hb⟩

theorem shape_text {a : ℤ} {b : ℕ} (hlow : -2 ^ 63 ≤ a) (hhigh : a < 2 ^ 63) (hb : b < 2 ^ 64)
    (ps qs : List ℕ) :
    Shape (pairText a b ++ ':' :: listText ps ++ ':' :: listText qs) a b (listText ps)
      (listText qs) := by
  have hplain (numbers : List ℕ) : ∀ c ∈ listText numbers, c ≠ ':' ∧ isBlank c = false :=
    forall_mem_listText (by decide) (by decide) numbers
  have hpair : ∀ c ∈ pairText a b, c ≠ ':' ∧ isBlank c = false :=
    forall_mem_pairText (by decide) (by decide) (by decide) a b
  have hvisible : ∀ c ∈ pairText a b ++ ':' :: listText ps ++ ':' :: listText qs, isBlank c = false := by
    simp only [List.forall_mem_append, List.forall_mem_cons]
    exact ⟨⟨fun c hc => (hpair c hc).2, by decide, fun c hc => (hplain ps c hc).2⟩, by decide,
      fun c hc => (hplain qs c hc).2⟩
  refine ⟨pairText a b, ⟨⟨[], allBlank_nil, (List.append_nil _).symm⟩, ?_⟩, ?_, ?_, ?_,
    pair_pairText hlow hhigh hb⟩
  · exact fun c hc => hvisible c (List.mem_of_getLast? hc)
  · exact fun h => (hpair _ h).1 rfl
  · exact fun h => (hplain ps _ h).1 rfl
  · exact fun h => (hplain qs _ h).1 rfl

/-! ## Reading back -/

theorem exists_mem_of_mem_repeated {counted : List (ℕ × ℕ)} {p : ℕ}
    (hp : p ∈ Line.repeated counted) : ∃ e, (p, e) ∈ counted := by
  obtain ⟨⟨q, e⟩, hentry, hq⟩ := List.mem_flatMap.mp hp
  exact ⟨e, (List.mem_replicate.mp hq).2 ▸ hentry⟩

theorem lt_of_le_maxPrime {n : ℕ} (hn : n ≤ 2 ^ 64 - 3) : n < 2 ^ 64 := by
  omega

theorem listsPrimes_repeated {counted : List (ℕ × ℕ)}
    (hrange : ∀ entry ∈ counted, 2 ≤ entry.1 ∧ entry.1 ≤ 2 ^ 64 - 3) :
    ListsPrimes (listText (Line.repeated counted)) (Line.repeated counted) := by
  have hprimes : ∀ p ∈ Line.repeated counted, 2 ≤ p ∧ p ≤ 2 ^ 64 - 3 := by
    intro p hp
    obtain ⟨e, hentry⟩ := exists_mem_of_mem_repeated hp
    exact hrange _ hentry
  exact ⟨lists_listText fun p hp => lt_of_le_maxPrime (hprimes p hp).2, hprimes⟩

/-- The factors of a pair are made of the primes that are written for them. -/
theorem Factored.ofPrimes_eq {relation : Relation} (h : relation.Factored) (hb : 0 < relation.b) :
    ofPrimes relation.a relation.b relation.rationalEntries relation.algebraicEntries = relation := by
  have hrational : Line.countPrimes (Line.repeated (relation.rational.map fun f => (f.p, f.e))) =
      relation.rational.map fun f => (f.p, f.e) := by
    apply Line.countPrimes_repeated
    · simpa [Function.comp_def] using h.rational_nodup
    · simp only [List.forall_mem_map]
      exact fun f hf => (h.rational_range f hf).2.2
  have halgebraic : Line.countPrimes (Line.repeated (relation.algebraic.map fun f => (f.p, f.e))) =
      relation.algebraic.map fun f => (f.p, f.e) := by
    apply Line.countPrimes_repeated
    · simpa [Function.comp_def] using h.algebraic_nodup
    · simp only [List.forall_mem_map]
      exact fun f hf => (h.algebraic_range f hf).2.2
  have hroots : relation.algebraic.map (fun f => ⟨f.p, findRoot relation.a relation.b f.p, f.e⟩) =
      relation.algebraic := by
    refine (List.map_congr_left fun f hf => ?_).trans relation.algebraic.map_id
    rw [← h.root_eq f hf]
    rfl
  simp only [ofPrimes, rationalEntries, algebraicEntries, if_neg (Nat.ne_of_gt hb), hrational,
    halgebraic, List.map_map, Function.comp_def, hroots]
  simp

/-- The factors of a free relation are made of the roots that are written for them. -/
theorem Splits.ofRoots_eq {relation : Relation} (h : relation.Splits) (hb : relation.b = 0) :
    ofRoots relation.a relation.algebraicEntries = relation := by
  have hroots : relation.algebraic.map (fun f => ⟨relation.a.natAbs, f.r, 1⟩) =
      relation.algebraic := by
    refine (List.map_congr_left fun f hf => ?_).trans relation.algebraic.map_id
    obtain ⟨hp, -, he⟩ := h.algebraic_eq f hf
    rw [← hp, ← he]
    rfl
  rw [algebraicEntries, if_pos hb, ofRoots, List.map_map, ← h.rational_eq, ← hb]
  exact congrArg (Relation.mk relation.a relation.b relation.rational) hroots

/-- A well-formed relation is read back from its line. -/
theorem WellFormed.ofLine_toLine {relation : Relation} (h : relation.WellFormed) :
    ofLine relation.toLine = .ok relation := by
  rw [ofLine, toLine, String.toList_ofList, ofChars_eq_ok_iff_shape]
  refine ⟨relation.a, relation.b, _, _, shape_text h.a_range.1 h.a_range.2 h.b_lt _ _, ?_⟩
  rcases h.factors with ⟨hb, hfactored⟩ | ⟨hb, hsplits⟩
  · have hrational : ListsPrimes (listText relation.rationalEntries) relation.rationalEntries := by
      rw [rationalEntries, if_neg (Nat.ne_of_gt hb)]
      apply listsPrimes_repeated
      simp only [List.forall_mem_map]
      exact fun f hf => ⟨(hfactored.rational_range f hf).1, (hfactored.rational_range f hf).2.1⟩
    have halgebraic : ListsPrimes (listText relation.algebraicEntries) relation.algebraicEntries := by
      rw [algebraicEntries, if_neg (Nat.ne_of_gt hb)]
      apply listsPrimes_repeated
      simp only [List.forall_mem_map]
      exact fun f hf => ⟨(hfactored.algebraic_range f hf).1, (hfactored.algebraic_range f hf).2.1⟩
    exact .inr ⟨hb, _, _, hrational, halgebraic, hfactored.ofPrimes_eq hb⟩
  · have hroots : ∀ r ∈ relation.algebraicEntries, r ≤ relation.a.natAbs := by
      rw [algebraicEntries, if_pos hb, List.forall_mem_map]
      exact fun f hf => (hsplits.algebraic_eq f hf).2.1
    have hnodup : relation.algebraicEntries.Nodup := by
      rw [algebraicEntries, if_pos hb]
      exact hsplits.roots_nodup
    have hbelow : relation.a.natAbs < 2 ^ 64 := by
      have hrange := h.a_range
      omega
    have hlists : Lists (listText relation.algebraicEntries) relation.algebraicEntries :=
      lists_listText fun r hr => Nat.lt_of_le_of_lt (hroots r hr) hbelow
    exact .inl ⟨hb, hsplits.two_le, _, ⟨hlists, hnodup, hroots⟩, hsplits.ofRoots_eq hb⟩

/-! ## Entries of a line -/

/-- The number of entries in a list. -/
def entryCount (field : List Char) : ℕ :=
  if trim field = [] then 0 else (Line.fields ',' field).length

/-- The number of entries in the two lists of a line. -/
def listEntries (line : List Char) : ℕ :=
  ((Line.fields ':' (trimEnd line)).tail.map entryCount).sum

theorem length_eq_entryCount {field : List Char} {numbers : List ℕ} (h : Lists field numbers) :
    numbers.length = entryCount field := by
  rw [entryCount]
  split
  next hblank =>
    rw [(lists_iff_of_allBlank (trim_eq_nil_iff.mp hblank)).mp h, List.length_nil]
  next hblank =>
    rcases lists_iff.mp h with ⟨hall, -⟩ | hentries
    · exact absurd (trim_eq_nil_iff.mpr hall) hblank
    · exact hentries.length_eq.symm

theorem Shape.listEntries_eq {line : List Char} {a : ℤ} {b : ℕ} {rational algebraic : List Char}
    (h : Shape line a b rational algebraic) :
    listEntries line = entryCount rational + entryCount algebraic := by
  obtain ⟨pair, hfields, -⟩ := shape_iff.mp h
  simp [listEntries, hfields]

theorem splits_ofRoots {a : ℤ} {field : List Char} {roots : List ℕ} (htwo : 2 ≤ a.natAbs)
    (hroots : ListsRoots a.natAbs field roots) : (ofRoots a roots).Splits where
  two_le := htwo
  rational_eq := rfl
  algebraic_eq := by
    rw [ofRoots, List.forall_mem_map]
    exact fun r hr => ⟨rfl, hroots.2.2 r hr, rfl⟩
  roots_nodup := by
    simpa [ofRoots, Function.comp_def] using hroots.2.1

theorem factored_ofPrimes {a : ℤ} {b : ℕ} {rational algebraic : List Char} {ps qs : List ℕ}
    (hps : ListsPrimes rational ps) (hqs : ListsPrimes algebraic qs)
    (hlength : ps.length + qs.length < 2 ^ 32) : (ofPrimes a b ps qs).Factored where
  rational_nodup := by simpa [ofPrimes, Function.comp_def] using Line.nodup_countPrimes ps
  algebraic_nodup := by simpa [ofPrimes, Function.comp_def] using Line.nodup_countPrimes qs
  rational_range := by
    simp only [ofPrimes, List.forall_mem_map]
    intro entry hentry
    obtain ⟨htwo, hmax⟩ := hps.2 _ (Line.mem_of_mem_countPrimes hentry)
    exact ⟨htwo, hmax, Line.pos_of_mem_countPrimes ps entry hentry⟩
  algebraic_range := by
    simp only [ofPrimes, List.forall_mem_map]
    intro entry hentry
    obtain ⟨htwo, hmax⟩ := hqs.2 _ (Line.mem_of_mem_countPrimes hentry)
    exact ⟨htwo, hmax, Line.pos_of_mem_countPrimes qs entry hentry⟩
  root_eq := by
    rw [ofPrimes, List.forall_mem_map]
    exact fun entry _ => rfl
  exponents_lt := by
    simpa [ofPrimes, Function.comp_def, Line.sum_countPrimes] using hlength

/-- What is read from a line is well-formed. -/
theorem wellFormed_of_ofLine {line : String} {relation : Relation} (hread : ofLine line = .ok relation)
    (hentries : listEntries line.toList < 2 ^ 32) : relation.WellFormed := by
  obtain ⟨a, b, rational, algebraic, hshape, hlists⟩ := ofChars_eq_ok_iff_shape.mp hread
  obtain ⟨hlow, hhigh, hbound⟩ := hshape.bounds
  rcases hlists with ⟨rfl, htwo, roots, hroots, rfl⟩ | ⟨hb, ps, qs, hps, hqs, rfl⟩
  · exact ⟨⟨hlow, hhigh⟩, hbound, .inr ⟨rfl, splits_ofRoots htwo hroots⟩⟩
  · refine ⟨⟨hlow, hhigh⟩, hbound, .inl ⟨hb, factored_ofPrimes hps hqs ?_⟩⟩
    rwa [length_eq_entryCount hps.1, length_eq_entryCount hqs.1, ← hshape.listEntries_eq]

/-- Well-formed relations are read back from their lines, and all relations that are read are well-formed. -/
theorem reading_writing :
    (∀ relation : Relation, relation.WellFormed → ofLine relation.toLine = .ok relation) ∧
      ∀ line relation, ofLine line = .ok relation → listEntries line.toList < 2 ^ 32 →
        relation.WellFormed ∧ ofLine relation.toLine = .ok relation := by
  refine ⟨fun relation h => h.ofLine_toLine, ?_⟩
  intro line relation hread hentries
  have hwell := wellFormed_of_ofLine hread hentries
  exact ⟨hwell, hwell.ofLine_toLine⟩

/-- A pair with a repeated prime, and a free relation behind a rational field that is not looked at. -/
theorem reading_writing_sample :
    WellFormed ⟨-8, 3, [⟨2, 2⟩], [⟨11, 1, 1⟩]⟩ ∧
      ofLine (toLine ⟨-8, 3, [⟨2, 2⟩], [⟨11, 1, 1⟩]⟩) = .ok ⟨-8, 3, [⟨2, 2⟩], [⟨11, 1, 1⟩]⟩ ∧
      ofLine "-7,0:x,y:1,7" = .ok ⟨-7, 0, [⟨7, 1⟩], [⟨7, 1, 1⟩, ⟨7, 7, 1⟩]⟩ ∧
      WellFormed ⟨-7, 0, [⟨7, 1⟩], [⟨7, 1, 1⟩, ⟨7, 7, 1⟩]⟩ := by
  have hfactored : Factored ⟨-8, 3, [⟨2, 2⟩], [⟨11, 1, 1⟩]⟩ :=
    ⟨by decide, by decide, by decide, by decide, by decide +kernel, by decide⟩
  have hwell : WellFormed ⟨-8, 3, [⟨2, 2⟩], [⟨11, 1, 1⟩]⟩ :=
    ⟨by decide, by decide, .inl ⟨by decide, hfactored⟩⟩
  have hread : ofLine "-7,0:x,y:1,7" = .ok ⟨-7, 0, [⟨7, 1⟩], [⟨7, 1, 1⟩, ⟨7, 7, 1⟩]⟩ := by
    decide +kernel
  have hentries : listEntries "-7,0:x,y:1,7".toList < 2 ^ 32 := by decide +kernel
  exact ⟨hwell, reading_writing.1 _ hwell, hread, (reading_writing.2 _ _ hread hentries).1⟩

end SieveFilter.Relation
