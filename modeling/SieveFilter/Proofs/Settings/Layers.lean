import SieveFilter.Proofs.Toml.Lines
import SieveFilter.Settings.Standard
import Mathlib.Data.List.Nodup

/-!
# Values over values

Entries whose names are distinct and lead to no part of a value can be laid over a layer in any order: a name
then has the value that they give it, or the one that it had before.  The entries in a file of single entries
are such ones, unless a name is put in quotes that leads to a part of a value.
-/

namespace SieveFilter

/-! ## Names -/

/-- A character below the small letters that is no capital letter is the small letter of itself only. -/
theorem toLower_eq_iff {c d : Char} (hc : c.toNat < 97) (hletter : ¬ (65 ≤ c.toNat ∧ c.toNat ≤ 90)) :
    d.toLower = c ↔ d = c := by
  delta Char.toLower
  split
  next hupper =>
    have hlow : 65 ≤ d.val.toNat := UInt32.le_iff_toNat_le.mp hupper.1
    have hhigh : d.val.toNat ≤ 90 := UInt32.le_iff_toNat_le.mp hupper.2
    constructor
    · rintro rfl
      change (d.val + 32).toNat < 97 at hc
      rw [UInt32.toNat_add] at hc
      change (d.val.toNat + 32) % 2 ^ 32 < 97 at hc
      omega
    · rintro rfl
      exact absurd ⟨hlow, hhigh⟩ hletter
  next => rfl

/-- The characters that lead from a value to a part of it stand only for themselves. -/
theorem Setting.mem_fold_iff {c : Char} (hc : c = '.' ∨ c = '[') {name : String} :
    c ∈ (fold name).toList ↔ c ∈ name.toList := by
  have hbounds : c.toNat < 97 ∧ ¬ (65 ≤ c.toNat ∧ c.toNat ≤ 90) ∧ c ≠ 'k' ∧ c ≠ '\u212a' := by
    rcases hc with rfl | rfl <;> decide
  obtain ⟨hbelow, hletter, hk, hkelvin⟩ := hbounds
  have hsame (d : Char) : (if d = '\u212a' then 'k' else d.toLower) = c ↔ d = c := by
    split
    next hd =>
      rw [hd]
      exact iff_of_false hk.symm hkelvin.symm
    next => exact toLower_eq_iff hbelow hletter
  simp only [fold, String.toList_map, List.mem_map, hsame, exists_eq_right]

/-- A name that leads to no part of a value is an address as a whole. -/
theorem Address.read_eq {name : String} (hdot : '.' ∉ name.toList) (hbracket : '[' ∉ name.toList) :
    Address.read name = [.name name] := by
  have hname : name.toList.takeWhile isNameChar ++ name.toList.dropWhile isNameChar = name.toList :=
    List.takeWhile_append_dropWhile
  rw [Address.read, List.span_eq_takeWhile_dropWhile]
  dsimp only
  generalize name.toList.takeWhile isNameChar = root at hname
  cases hrest : name.toList.dropWhile isNameChar with
  | nil =>
    rw [hrest, List.append_nil] at hname
    cases root with
    | nil => rfl
    | cons c root =>
      simp only [List.length_nil, readSteps, hname, String.ofList_toList]
      rw [← hname]
  | cons c rest =>
    have hmem : c ∈ name.toList := by
      rw [← hname, hrest]
      simp
    have hnone : readSteps (c :: rest).length (c :: rest) = none := by
      rw [readSteps.eq_def]
      split
      next heq => cases heq
      next heq => exact absurd hmem ((List.cons.inj heq).1 ▸ hdot)
      next heq => exact absurd hmem ((List.cons.inj heq).1 ▸ hbracket)
      next => rfl
    rw [hnone]
    cases root <;> rfl

/-- The first of several entries is the one that counts. -/
theorem lookup_cons_eq (entry : String × α) (rest : List (String × α)) (name : String) :
    (entry :: rest).lookup name = if name = entry.1 then some entry.2 else rest.lookup name := by
  rw [List.lookup_cons]
  by_cases hname : name = entry.1
  · simp [hname]
  · simp [hname, beq_eq_false_iff_ne.mpr hname]

namespace Setting

/-- The value is a single one, neither a list nor a table. -/
def IsSingle : Setting → Prop
  | integer _ | number _ | boolean _ | text _ => True
  | nothing | list _ | table _ => False

theorem IsSingle.mergeInto_eq {setting : Setting} (h : setting.IsSingle) (before : Option Setting) :
    setting.mergeInto before = setting := by
  cases setting with
  | nothing => cases h
  | list => cases h
  | table => cases h
  | _ => rw [mergeInto.eq_def]

theorem lookup_put (entries : List (String × Setting)) (name : String) (setting : Setting) (other : String) :
    (put entries name setting).lookup other = if other = name then some setting else entries.lookup other := by
  rw [put, lookup_cons_eq]
  split
  next => rfl
  next hother =>
    induction entries with
    | nil => rfl
    | cons entry rest ih =>
      rw [lookup_cons_eq, List.filter_cons]
      split
      next => rw [lookup_cons_eq, ih]
      next hgone =>
        have hentry : entry.1 = name := by simpa using hgone
        rw [ih, if_neg (hentry ▸ hother)]

theorem isSingle_ofVariable (value : String) : (ofVariable value).IsSingle := by
  rw [ofVariable]
  split
  · trivial
  · trivial
  · split
    · trivial
    · split <;> trivial

end Setting

namespace Layer

/-- The name leads to a whole value and not to a part of one. -/
def IsTop (name : String) : Prop :=
  '.' ∉ name.toList ∧ '[' ∉ name.toList

instance (name : String) : Decidable (IsTop name) :=
  inferInstanceAs (Decidable ('.' ∉ name.toList ∧ '[' ∉ name.toList))

/-- The names of entries are distinct, letters of either case counting as one, and lead to whole values. -/
structure Plain (given : List (String × Setting)) : Prop where
  distinct : (given.map fun entry => Setting.fold entry.1).Nodup
  top : ∀ entry ∈ given, IsTop entry.1

/-- The value that entries give to a name, which they may have in letters of either case. -/
def value? (given : List (String × Setting)) (name : String) : Option Setting :=
  (given.map fun entry => (Setting.fold entry.1, entry.2)).lookup name

theorem value?_cons (entry : String × Setting) (rest : List (String × Setting)) (name : String) :
    value? (entry :: rest) name =
      if name = Setting.fold entry.1 then some entry.2 else value? rest name :=
  lookup_cons_eq _ _ _

theorem value?_eq_none {given : List (String × Setting)} {name : String}
    (hnone : name ∉ given.map fun entry => Setting.fold entry.1) : value? given name = none := by
  rw [value?, List.lookup_eq_none_iff]
  intro entry hentry
  obtain ⟨source, hsource, rfl⟩ := List.mem_map.mp hentry
  rw [bne_iff_ne]
  rintro rfl
  exact hnone (List.mem_map.mpr ⟨source, hsource, rfl⟩)

/-- A value that entries give is one of theirs. -/
theorem exists_of_value? {given : List (String × Setting)} {name : String} {setting : Setting}
    (h : value? given name = some setting) : ∃ entry ∈ given, entry.2 = setting := by
  induction given with
  | nil => cases h
  | cons entry rest ih =>
    rw [value?_cons] at h
    split at h
    next => exact ⟨entry, List.mem_cons_self, Option.some.inj h⟩
    next =>
      obtain ⟨other, hother, heq⟩ := ih h
      exact ⟨other, List.mem_cons_of_mem _ hother, heq⟩

theorem assign_eq {key : String} {setting : Setting} (htop : IsTop key) (hsingle : setting.IsSingle)
    (layer : Layer) : layer.assign key setting = .ok (Setting.put layer (Setting.fold key) setting) := by
  have hdot : '.' ∉ (Setting.fold key).toList := by
    rw [Setting.mem_fold_iff (.inl rfl)]
    exact htop.1
  have hbracket : '[' ∉ (Setting.fold key).toList := by
    rw [Setting.mem_fold_iff (.inr rfl)]
    exact htop.2
  rw [assign, Address.read_eq hdot hbracket, Setting.assign, hsingle.mergeInto_eq]
  rfl

/-- A name has the value that entries give it, or else the one from before. -/
theorem Plain.lookup_assignAll {given : List (String × Setting)} (h : Plain given)
    (hsingle : ∀ entry ∈ given, entry.2.IsSingle) (layer : Layer) :
    ∃ after, assignAll given layer = .ok after ∧
      ∀ name, after.lookup name = (value? given name).or (layer.lookup name) := by
  induction given generalizing layer with
  | nil => exact ⟨layer, rfl, fun name => rfl⟩
  | cons entry rest ih =>
    obtain ⟨key, setting⟩ := entry
    obtain ⟨hnew, hdistinct⟩ := List.nodup_cons.mp h.distinct
    obtain ⟨htop, hlater⟩ := List.forall_mem_cons.mp h.top
    obtain ⟨hfirst, hothers⟩ := List.forall_mem_cons.mp hsingle
    obtain ⟨after, hafter, hlookup⟩ :=
      ih ⟨hdistinct, hlater⟩ hothers (Setting.put layer (Setting.fold key) setting)
    refine ⟨after, ?_, fun name => ?_⟩
    · rw [assignAll, assign_eq htop hfirst]
      exact hafter
    · rw [hlookup, Setting.lookup_put, value?_cons]
      by_cases hname : name = Setting.fold key
      · rw [hname, value?_eq_none hnew, if_pos rfl, if_pos rfl]
        rfl
      · rw [if_neg hname, if_neg hname]

end Layer

/-! ## Files -/

theorem Setting.ofTomlEntries_eq (entries : Toml.Entries) :
    ofTomlEntries entries = entries.map fun entry => (entry.1, ofToml entry.2) := by
  induction entries with
  | nil => rfl
  | cons entry rest ih => rw [ofTomlEntries, ih, List.map_cons]

theorem Toml.isSingle_ofWord? {word : List Char} {value : Toml.Value}
    (hword : Toml.Value.ofWord? word = some value) : (Setting.ofToml value).IsSingle := by
  rw [Toml.Value.ofWord?] at hword
  split at hword
  next => exact Option.some.inj hword ▸ trivial
  next =>
    split at hword
    next => exact Option.some.inj hword ▸ trivial
    next =>
      split at hword
      next => exact Option.some.inj hword ▸ trivial
      next =>
        obtain ⟨number, -, rfl⟩ := Option.map_eq_some_iff.mp hword
        trivial

/-- A literal stands for a single value. -/
theorem Toml.IsLiteral.isSingle {literal : List Char} {value : Toml.Value}
    (h : Toml.IsLiteral literal value) : (Setting.ofToml value).IsSingle := by
  have hread := h [] Toml.stops_nil
  generalize literal ++ [] = text at hread
  rw [Toml.readScalar.eq_def] at hread
  split at hread
  next =>
    obtain ⟨words, -, heq⟩ := Option.map_eq_some_iff.mp hread
    exact (Prod.mk.inj heq).1 ▸ trivial
  next =>
    obtain ⟨words, -, heq⟩ := Option.map_eq_some_iff.mp hread
    exact (Prod.mk.inj heq).1 ▸ trivial
  next =>
    split at hread
    next => exact (Prod.mk.inj (Option.some.inj hread)).1 ▸ trivial
    next =>
      obtain ⟨word, hword, heq⟩ := Option.map_eq_some_iff.mp hread
      exact (Prod.mk.inj heq).1 ▸ Toml.isSingle_ofWord? hword

theorem Toml.Lines.isSingle {text : List Char} {entries : Toml.Entries} (h : Toml.Lines text entries) :
    ∀ entry ∈ Setting.ofTomlEntries entries, entry.2.IsSingle := by
  have hline {line : List Char} {entry : Option (String × Toml.Value)} (hline : Toml.Line line entry) :
      ∀ added ∈ entry.toList, (Setting.ofToml added.2).IsSingle := by
    cases hline with
    | empty => simp
    | entry _ _ _ _ hliteral => simpa using hliteral.isSingle
  rw [Setting.ofTomlEntries_eq, List.forall_mem_map]
  induction h with
  | last h => exact hline h
  | next h _ _ ih => exact List.forall_mem_append.mpr ⟨hline h, ih⟩

namespace Settings

/-- The entries in the settings file: none if it is not there, and else those on the lines of its text. -/
inductive FileLines (tree : FileTree) (file : Option String) : Toml.Entries → Prop
  | absent (habsent : tree.contains (file.getD defaultFile) = false) : FileLines tree file []
  | present {text : String} {entries : Toml.Entries}
      (hpresent : tree.contains (file.getD defaultFile) = true)
      (hlocate : locate? tree (file.getD defaultFile) = some (text.toUTF8, .toml))
      (hlines : Toml.Lines text.toList entries) : FileLines tree file entries

/-- The names of entries are distinct, letters of either case counting as one. -/
def DistinctNames (entries : Toml.Entries) : Prop :=
  (entries.map fun entry => Setting.fold entry.1).Nodup

theorem DistinctNames.nodup {entries : Toml.Entries} (h : DistinctNames entries) :
    (entries.map Prod.fst).Nodup :=
  List.Nodup.of_map Setting.fold (by rwa [List.map_map])

/-- Entries of a file with distinct names of whole values can be laid over a layer in any order. -/
theorem DistinctNames.plain {entries : Toml.Entries} (h : DistinctNames entries)
    (htop : ∀ entry ∈ entries, Layer.IsTop entry.1) : Layer.Plain (Setting.ofTomlEntries entries) := by
  rw [Setting.ofTomlEntries_eq]
  exact ⟨by rwa [List.map_map], List.forall_mem_map.mpr htop⟩

theorem FileLines.isSingle {tree : FileTree} {file : Option String} {entries : Toml.Entries}
    (h : FileLines tree file entries) : ∀ entry ∈ Setting.ofTomlEntries entries, entry.2.IsSingle := by
  cases h with
  | absent => simp [Setting.ofTomlEntries]
  | present _ _ hlines => exact hlines.isSingle

end Settings

end SieveFilter
