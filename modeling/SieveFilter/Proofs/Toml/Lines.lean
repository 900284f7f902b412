import SieveFilter.Proofs.Toml.Literals

/-!
# Files of lines with single values

A file may have an entry on each of its lines, a key and a literal with an equals sign between them.  Blanks
may stand around them, and comments and blank lines in between.  If no key is there twice, the file is read, and
what is read are these entries in their order.
-/

namespace SieveFilter.Toml

/-- All characters are blanks or tabulators. -/
def Blanks (text : List Char) : Prop :=
  ∀ c ∈ text, isBlank c = true

instance (text : List Char) : Decidable (Blanks text) :=
  List.decidableBAll _ text

/-- The text is a comment or empty. -/
def IsComment (text : List Char) : Prop :=
  text = [] ∨ ∃ words, text = '#' :: words ∧ ∀ c ∈ words, isPlain c = true

/-- A line without its end, and the entry on it if there is one. -/
inductive Line : List Char → Option (String × Value) → Prop
  | empty {blanks comment : List Char} (hblanks : Blanks blanks) (hcomment : IsComment comment) :
      Line (blanks ++ comment) none
  | entry {before key between after literal behind comment : List Char} {name : String} {value : Value}
      (hbefore : Blanks before) (hkey : IsKey key name) (hbetween : Blanks between) (hafter : Blanks after)
      (hliteral : IsLiteral literal value) (hbehind : Blanks behind) (hcomment : IsComment comment) :
      Line (before ++ (key ++ (between ++ '=' :: (after ++ (literal ++ (behind ++ comment))))))
        (some (name, value))

/-- Lines with their ends, and the entries on them; behind the last line no end needs to stand. -/
inductive Lines : List Char → Entries → Prop
  | last {line : List Char} {entry : Option (String × Value)} (hline : Line line entry) :
      Lines line entry.toList
  | next {line lineEnd rest : List Char} {entry : Option (String × Value)} {entries : Entries}
      (hline : Line line entry) (hend : lineEnd = ['\n'] ∨ lineEnd = ['\r', '\n'])
      (hrest : Lines rest entries) : Lines (line ++ (lineEnd ++ rest)) (entry.toList ++ entries)

/-! ## Parts of lines -/

theorem skipBlanks_append {blanks : List Char} (hblanks : Blanks blanks) {rest : List Char}
    (hrest : ∀ c ∈ rest.head?, isBlank c = false) : skipBlanks (blanks ++ rest) = rest := by
  rw [skipBlanks, List.dropWhile_append_of_pos hblanks]
  cases rest with
  | nil => rfl
  | cons c rest => simp [hrest c rfl]

theorem skipBlanks_eq_self {text : List Char} (htext : ∀ c ∈ text.head?, isBlank c = false) :
    skipBlanks text = text :=
  skipBlanks_append (List.forall_mem_nil _) htext

/-- A text after which a line has ended is empty, or it begins with a line end. -/
theorem afterLineEnd?_eq_some_iff {text rest : List Char} :
    afterLineEnd? text = some rest ↔
      (text = [] ∧ rest = []) ∨ text = '\n' :: rest ∨ text = '\r' :: '\n' :: rest := by
  rw [afterLineEnd?.eq_def]
  split
  next => simp
  next => simp
  next => simp
  next hnil hfeed hreturn =>
    simp only [reduceCtorEq, false_iff, not_or, not_and]
    exact ⟨fun h => absurd h hnil, fun h => hfeed _ h, fun h => hreturn _ h⟩

/-- What holds of the characters of line ends holds of the first character where a line has ended. -/
theorem forall_head?_of_afterLineEnd? {text rest : List Char} (h : afterLineEnd? text = some rest)
    {property : Char → Prop} (hfeed : property '\n') (hreturn : property '\r') :
    ∀ c ∈ text.head?, property c := by
  rcases afterLineEnd?_eq_some_iff.mp h with ⟨rfl, -⟩ | rfl | rfl
  · simp
  · simpa using hfeed
  · simpa using hreturn

theorem stops_of_blanks {blanks rest : List Char} (hblanks : Blanks blanks) (hrest : Stops rest) :
    Stops (blanks ++ rest) := by
  cases blanks with
  | nil => exact hrest
  | cons c blanks =>
    have hc : c = ' ' ∨ c = '\t' := by simpa [isBlank] using hblanks c List.mem_cons_self
    rcases hc with rfl | rfl <;> simp [Stops]

theorem forall_head?_of_isComment {comment tail rest : List Char} (hcomment : IsComment comment)
    (htail : afterLineEnd? tail = some rest) {property : Char → Prop} (hmark : property '#')
    (hfeed : property '\n') (hreturn : property '\r') : ∀ c ∈ (comment ++ tail).head?, property c := by
  rcases hcomment with rfl | ⟨words, rfl, -⟩
  · exact forall_head?_of_afterLineEnd? htail hfeed hreturn
  · simpa using hmark

/-- Blanks and a comment may stand in front of a line end. -/
theorem endLine?_eq {blanks comment tail rest : List Char} (hblanks : Blanks blanks)
    (hcomment : IsComment comment) (htail : afterLineEnd? tail = some rest) :
    endLine? (blanks ++ (comment ++ tail)) = some rest := by
  have hblank : ∀ c ∈ tail.head?, isBlank c = false :=
    forall_head?_of_afterLineEnd? htail (by decide) (by decide)
  have hplain : ∀ c ∈ tail.head?, isPlain c = false :=
    forall_head?_of_afterLineEnd? htail (by decide) (by decide)
  rcases hcomment with rfl | ⟨words, rfl, hwords⟩
  · rw [endLine?, List.nil_append, skipBlanks_append hblanks hblank]
    split
    next => exact absurd (hplain '#' rfl) (by decide)
    next => exact htail
  · have hskip : skipBlanks (blanks ++ ('#' :: words ++ tail)) = '#' :: (words ++ tail) :=
      skipBlanks_append hblanks (by simp [isBlank])
    have hdrop : (words ++ tail).dropWhile isPlain = tail := by
      rw [List.dropWhile_append_of_pos hwords]
      cases tail with
      | nil => rfl
      | cons c tail => simp [hplain c rfl]
    rw [endLine?, hskip]
    simp only [hdrop, htail]

/-- A text that begins with a character of another kind is not the end of a line. -/
theorem endLine?_eq_none {c : Char} {rest : List Char} (hc : c ∉ [' ', '\t', '#', '\n', '\r']) :
    endLine? (c :: rest) = none := by
  simp only [List.mem_cons, List.not_mem_nil, or_false, not_or] at hc
  obtain ⟨hspace, htab, hmark, hfeed, hreturn⟩ := hc
  rw [endLine?, skipBlanks_eq_self (by simp [isBlank, hspace, htab])]
  split
  next heq => exact absurd (List.cons.inj heq).1 hmark
  next =>
    rw [Option.eq_none_iff_forall_ne_some]
    intro after hafter
    rcases afterLineEnd?_eq_some_iff.mp hafter with ⟨hnil, -⟩ | heq | heq
    · cases hnil
    · exact hfeed (List.cons.inj heq).1
    · exact hreturn (List.cons.inj heq).1

/-! ## One line -/

/-- A line that begins with no bracket is read as blank, or else as an entry. -/
theorem Draft.statement_eq {draft : Draft} {text shown : List Char} (hskip : skipBlanks text = shown)
    (hhead : ∀ c ∈ shown.head?, c ≠ '[') :
    draft.statement text =
      match endLine? shown with
      | some rest => some (draft, rest)
      | none =>
        match readKey shown with
        | some (path, '=' :: rest) => do
          let (value, rest) ← readValue maxDepth (2 * rest.length + 2) rest
          let entries ← draft.entries.within (Entries.assign value path) draft.header
          return (⟨entries, draft.header⟩, ← endLine? rest)
        | _ => none := by
  rw [Draft.statement, hskip]
  split
  next => exact absurd rfl (hhead '[' rfl)
  next => exact absurd rfl (hhead '[' rfl)
  next => rfl

theorem isBlank_eq_false_of_notMem {others : List Char} (hothers : [' ', '\t'] ⊆ others) {text : List Char}
    (htext : ∀ c ∈ text.head?, c ∉ others) : ∀ c ∈ text.head?, isBlank c = false := by
  intro c hc
  have hnot : c ∉ [' ', '\t'] := fun hmem => htext c hc (hothers hmem)
  simpa [isBlank] using hnot

theorem readKey_eq {key between rest : List Char} {name : String} (hkey : IsKey key name)
    (hbetween : Blanks between) : readKey (key ++ (between ++ '=' :: rest)) = some ([name], '=' :: rest) := by
  have hstart : ∀ c ∈ (key ++ (between ++ '=' :: rest)).head?, c ∉ [' ', '\t'] :=
    hkey.begins.head?_notMem (by decide) _
  have hskip : skipBlanks (between ++ '=' :: rest) = '=' :: rest :=
    skipBlanks_append hbetween (by simp [isBlank])
  have hstops : Stops (between ++ '=' :: rest) := stops_of_blanks hbetween (by simp [Stops])
  rw [readKey, show maxDepth - 1 = 78 + 1 from rfl, readKeyParts,
    skipBlanks_eq_self (isBlank_eq_false_of_notMem (List.Subset.refl _) hstart), hkey _ hstops]
  simp only [hskip]
  rfl

theorem readValue_eq {after literal rest : List Char} {value : Value} (hafter : Blanks after)
    (hliteral : IsLiteral literal value) (hrest : Stops rest) (fuel : ℕ) :
    readValue maxDepth (fuel + 1) (after ++ (literal ++ rest)) = some (value, rest) := by
  have hstart : ∀ c ∈ (literal ++ rest).head?, c ∉ [' ', '\t', '[', '\x7b'] :=
    hliteral.begins.head?_notMem (by decide) _
  rw [readValue, skipBlanks_append hafter (isBlank_eq_false_of_notMem (by simp) hstart)]
  split
  next heq => exact absurd (by simp) (hstart '[' (by rw [heq]; rfl))
  next heq => exact absurd (by simp) (hstart '\x7b' (by rw [heq]; rfl))
  next => exact hliteral rest hrest

theorem lookup_eq_none {entries : Entries} {name : String} (hnew : name ∉ entries.map Prod.fst) :
    entries.lookup name = none := by
  rw [List.lookup_eq_none_iff]
  intro entry hentry
  rw [bne_iff_ne]
  rintro rfl
  exact hnew (List.mem_map_of_mem hentry)

/-- A key that is not there yet is entered with the value behind it. -/
theorem Draft.statement_entry {blanks key between after literal behind rest : List Char} {name : String}
    {value : Value} {before : Entries} (hblanks : Blanks blanks) (hkey : IsKey key name)
    (hbetween : Blanks between) (hafter : Blanks after) (hliteral : IsLiteral literal value)
    (hstops : Stops behind) (hend : endLine? behind = some rest) (hnew : name ∉ before.map Prod.fst) :
    (Draft.mk before []).statement
        (blanks ++ (key ++ (between ++ '=' :: (after ++ (literal ++ behind))))) =
      some (⟨before ++ [(name, value)], []⟩, rest) := by
  have hread : readKey (key ++ (between ++ '=' :: (after ++ (literal ++ behind)))) = _ :=
    readKey_eq hkey hbetween
  have hstart : ∀ c ∈ (key ++ (between ++ '=' :: (after ++ (literal ++ behind)))).head?,
      c ∉ [' ', '\t', '[', '#', '\n', '\r'] := hkey.begins.head?_notMem (by decide) _
  obtain ⟨c, key, rfl, -⟩ := hkey.begins
  have hc := hstart c rfl
  have hblank := isBlank_eq_false_of_notMem (by simp) hstart
  have hentry : endLine? (c :: key ++ (between ++ '=' :: (after ++ (literal ++ behind)))) = none := by
    have hfewer : [' ', '\t', '#', '\n', '\r'] ⊆ [' ', '\t', '[', '#', '\n', '\r'] := by simp
    exact endLine?_eq_none fun hmem => hc (hfewer hmem)
  rw [Draft.statement_eq (skipBlanks_append hblanks hblank) ?_, hentry, hread]
  · simp only [readValue_eq hafter hliteral hstops, Entries.within, Entries.assign, lookup_eq_none hnew,
      Option.bind_eq_bind, Option.bind_some, Option.isSome_none, Bool.false_eq_true, if_false, hend]
    rfl
  · rintro _ hfirst rfl
    exact hstart '[' hfirst (by simp)

/-- A line adds its entry, if it has one, to those of the lines before. -/
theorem Line.statement_eq {line tail rest : List Char} {entry : Option (String × Value)}
    (h : Line line entry) (htail : afterLineEnd? tail = some rest) {before : Entries}
    (hnew : ∀ added ∈ entry, added.1 ∉ before.map Prod.fst) :
    (Draft.mk before []).statement (line ++ tail) = some (⟨before ++ entry.toList, []⟩, rest) := by
  cases h with
  | @empty blanks comment hblanks hcomment =>
    have hblank : ∀ c ∈ (comment ++ tail).head?, isBlank c = false :=
      forall_head?_of_isComment hcomment htail (by decide) (by decide) (by decide)
    have hbracket : ∀ c ∈ (comment ++ tail).head?, c ≠ '[' :=
      forall_head?_of_isComment hcomment htail (by decide) (by decide) (by decide)
    have hend : endLine? (comment ++ tail) = some rest :=
      endLine?_eq (List.forall_mem_nil _) hcomment htail
    rw [List.append_assoc, Draft.statement_eq (skipBlanks_append hblanks hblank) hbracket, hend]
    simp
  | entry hbefore hkey hbetween hafter hliteral hbehind hcomment =>
    have hstops := stops_of_blanks hbehind
      (forall_head?_of_isComment hcomment htail (by simp) (by simp) (by simp))
    have hend := endLine?_eq hbehind hcomment htail
    simp only [List.append_assoc, List.cons_append]
    exact Draft.statement_entry hbefore hkey hbetween hafter hliteral hstops hend (hnew _ rfl)

/-! ## All lines -/

theorem Draft.statements_succ {draft after : Draft} {text rest : List Char} {fuel : ℕ} (hsome : text ≠ [])
    (hread : draft.statement text = some (after, rest)) :
    Draft.statements (fuel + 1) draft text = Draft.statements fuel after rest := by
  rw [Draft.statements, hread]
  exact hsome

theorem Draft.statements_nil {draft : Draft} {fuel : ℕ} (hfuel : 0 < fuel) :
    Draft.statements fuel draft [] = some draft := by
  obtain ⟨fuel, rfl⟩ := Nat.exists_eq_add_of_lt hfuel
  rw [Draft.statements]
  omega

/-- No key of the entries before is that of the next one. -/
theorem notMem_of_nodup {before entries : Entries} {entry : Option (String × Value)}
    (hdistinct : ((before ++ (entry.toList ++ entries)).map Prod.fst).Nodup) :
    ∀ added ∈ entry, added.1 ∉ before.map Prod.fst := by
  intro added hadded hmem
  rw [List.map_append, List.nodup_append] at hdistinct
  have hlater : added ∈ entry.toList ++ entries :=
    List.mem_append_left _ (Option.mem_toList.mpr hadded)
  exact hdistinct.2.2 _ hmem _ (List.mem_map_of_mem hlater) rfl

/-- Lines are read one after the other, and none of them stops the reader. -/
theorem Lines.statements_eq {text : List Char} {entries : Entries} (h : Lines text entries) {fuel : ℕ}
    (hfuel : text.length < fuel) {before : Entries}
    (hdistinct : ((before ++ entries).map Prod.fst).Nodup) :
    Draft.statements fuel ⟨before, []⟩ text = some ⟨before ++ entries, []⟩ := by
  induction h generalizing fuel before with
  | @last line entry hline =>
    rw [← List.append_nil entry.toList] at hdistinct
    have hread : (Draft.mk before []).statement (line ++ []) = some (⟨before ++ entry.toList, []⟩, []) :=
      hline.statement_eq rfl (notMem_of_nodup hdistinct)
    rw [List.append_nil] at hread
    by_cases hnil : line = []
    · subst hnil
      have hsame : (Draft.mk before []).statement [] = some (⟨before, []⟩, []) := rfl
      rw [hsame] at hread
      rw [Draft.statements_nil hfuel, (Prod.mk.inj (Option.some.inj hread)).1]
    · have hlength := List.length_pos_iff.mpr hnil
      obtain ⟨fuel, rfl⟩ := Nat.exists_eq_add_of_lt hfuel
      rw [Draft.statements_succ hnil hread, Draft.statements_nil (by omega)]
  | @next line lineEnd rest entry entries hline hend _ ih =>
    have htail : afterLineEnd? (lineEnd ++ rest) = some rest := by
      rcases hend with rfl | rfl <;> rfl
    have hread := hline.statement_eq htail (notMem_of_nodup hdistinct)
    have hlength : rest.length < (line ++ (lineEnd ++ rest)).length := by
      rcases hend with rfl | rfl <;> simp <;> omega
    have hsome : line ++ (lineEnd ++ rest) ≠ [] := List.ne_nil_of_length_pos (by omega)
    rw [← List.append_assoc] at hdistinct
    obtain ⟨fuel, rfl⟩ := Nat.exists_eq_add_of_lt hfuel
    rw [Draft.statements_succ hsome hread, ih (by omega) hdistinct, List.append_assoc]

/-- A text that begins as lines do begins with no byte order mark. -/
theorem Line.head?_ne {line tail : List Char} {entry : Option (String × Value)} (h : Line line entry)
    (htail : ∀ c ∈ tail.head?, c ≠ '\ufeff') : ∀ c ∈ (line ++ tail).head?, c ≠ '\ufeff' := by
  have hblanks {blanks rest : List Char} (h : Blanks blanks) (hrest : ∀ c ∈ rest.head?, c ≠ '\ufeff') :
      ∀ c ∈ (blanks ++ rest).head?, c ≠ '\ufeff' := by
    cases blanks with
    | nil => exact hrest
    | cons first blanks =>
      rintro _ ⟨⟩ rfl
      exact absurd (h '\ufeff' List.mem_cons_self) (by decide)
  cases h with
  | empty hblank hcomment =>
    rw [List.append_assoc]
    refine hblanks hblank ?_
    rcases hcomment with rfl | ⟨words, rfl, -⟩
    · exact htail
    · simp
  | entry hbefore hkey =>
    rw [List.append_assoc, List.append_assoc]
    refine hblanks hbefore fun c hc => ?_
    have hnot : c ∉ ['\ufeff'] := hkey.begins.head?_notMem (by decide) _ c hc
    simpa using hnot

/-- A file of lines without a key that is there twice is read as the entries on its lines. -/
theorem Lines.read?_eq {text : List Char} {entries : Entries} (h : Lines text entries)
    (hdistinct : (entries.map Prod.fst).Nodup) : read? text = some entries := by
  have hhead : ∀ c ∈ text.head?, c ≠ '\ufeff' := by
    cases h with
    | last hline =>
      have hline : ∀ c ∈ (text ++ []).head?, c ≠ '\ufeff' := hline.head?_ne (by simp)
      rwa [List.append_nil] at hline
    | next hline hend =>
      refine hline.head?_ne ?_
      rcases hend with rfl | rfl <;> simp
  have hread : Draft.statements (text.length + 1) ⟨[], []⟩ text = some ⟨entries, []⟩ :=
    h.statements_eq (Nat.lt_succ_self _) hdistinct
  rw [read?.eq_def]
  split
  next => exact absurd rfl (hhead '\ufeff' rfl)
  next =>
    dsimp only
    rw [hread]
    rfl

end SieveFilter.Toml
