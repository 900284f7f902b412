import SieveFilter.Proofs.Settings.Layers
import SieveFilter.Proofs.Text.Bytes

/-!
# Lawful libraries for settings

What is documented of a library for settings: which entries a settings file of single entries has, that
variables stand for single values, that what is laid over a layer counts before it, and that the values of the
default layer convert to themselves.  The standard library has these properties.
-/

namespace SieveFilter.Settings

/-- What loading relies on of its library. -/
structure Library.Lawful (library : Library) : Prop where
  /-- A settings file of lines has the entries of the lines. -/
  entries_eq : ∀ {tree : FileTree} {path text : String} {entries : Toml.Entries},
    locate? tree path = some (text.toUTF8, .toml) → Toml.Lines text.toList entries →
    (entries.map Prod.fst).Nodup → library.entries tree path = .ok (Setting.ofTomlEntries entries)
  isSingle_parse : ∀ value, (library.parse value).IsSingle
  /-- A name has the value that entries laid over a layer give it, or else the one of the layer. -/
  lookup_overlay : ∀ {given : List (String × Setting)}, Layer.Plain given →
    (∀ entry ∈ given, entry.2.IsSingle) → ∀ layer : Layer,
    ∃ after : Layer, library.overlay given layer = .ok after ∧
      ∀ name, after.lookup name = (Layer.value? given name).or (layer.lookup name)
  count?_integer : ∀ {bound n : ℕ}, n ≤ bound → library.count? bound (.integer n) = some n
  flag?_boolean : ∀ b, library.flag? (.boolean b) = some b
  text?_text : ∀ text, library.text? (.text text) = some text
  policy?_name : ∀ policy : CostPolicy, library.policy? (.text (policy.name "_")) = some policy

namespace Library

/-- The standard library does as is documented. -/
theorem lawful_standard : Library.standard.Lawful where
  entries_eq := by
    intro tree path text entries hlocate hlines hdistinct
    have hread := hlines.read?_eq hdistinct
    simp only [standard, readFile, hlocate, Text.fromUTF8?_toUTF8, Format.entries, Format.read, hread]
    rfl
  isSingle_parse := Setting.isSingle_ofVariable
  lookup_overlay := by
    intro given hplain hsingle layer
    exact hplain.lookup_assignAll hsingle layer
  count?_integer := by
    intro bound n hle
    have hword : (Setting.integer n).word? = some n := by simp [Setting.word?]
    show (Setting.integer n).count? bound = some n
    rw [Setting.count?, hword, Option.filter_some, decide_eq_true hle]
    rfl
  flag?_boolean := fun _ => rfl
  text?_text := fun _ => rfl
  policy?_name := by
    intro policy
    cases policy <;> decide +kernel

variable {library : Library}

/-- The default layer stands for the default settings. -/
theorem Lawful.settings?_defaultLayer (h : library.Lawful) :
    library.settings? defaultLayer = some default := by
  -- every default number is small enough for its setting
  simp (disch := decide) [settings?, Layer.required, Layer.optional, defaultLayer, List.lookup_cons,
    h.count?_integer, h.flag?_boolean, h.text?_text, h.policy?_name]
  rfl

theorem Lawful.isSingle_ofEnvironment (h : library.Lawful) (environment : List (String × String)) :
    ∀ entry ∈ library.ofEnvironment environment, entry.2.IsSingle := by
  intro entry hentry
  obtain ⟨_, -, hentry⟩ := List.mem_filterMap.mp hentry
  obtain ⟨key, -, rfl⟩ := Option.map_eq_some_iff.mp hentry
  exact h.isSingle_parse _

/-- The value that a name is given: the one from the environment, or else the one from the file. -/
def given (library : Library) (environment : List (String × String)) (entries : Toml.Entries)
    (name : String) : Option Setting :=
  (Layer.value? (library.ofEnvironment environment) name).or
    (Layer.value? (Setting.ofTomlEntries entries) name)

theorem Lawful.isSingle_of_given (h : library.Lawful) {tree : FileTree} {environment : List (String × String)}
    {file : Option String} {entries : Toml.Entries} (hfile : FileLines tree file entries) {name : String}
    {setting : Setting} (hgiven : library.given environment entries name = some setting) :
    setting.IsSingle := by
  rcases Option.or_eq_some_iff.mp hgiven with hvariable | ⟨-, hfileValue⟩
  · obtain ⟨entry, hentry, rfl⟩ := Layer.exists_of_value? hvariable
    exact h.isSingle_ofEnvironment environment entry hentry
  · obtain ⟨entry, hentry, rfl⟩ := Layer.exists_of_value? hfileValue
    exact hfile.isSingle entry hentry

end Library

section

variable {library : Library} {tree : FileTree} {environment : List (String × String)}
  {file : Option String} {entries : Toml.Entries}

/-- Loading lays the entries of the settings file over the default layer, and those of the environment over
these. -/
theorem load_of_overlay (hlibrary : library.Lawful) (hfile : FileLines tree file entries)
    (hdistinct : DistinctNames entries) {below layer : Layer}
    (hbelow : library.overlay (Setting.ofTomlEntries entries) defaultLayer = .ok below)
    (hlayer : library.overlay (library.ofEnvironment environment) below = .ok layer) :
    load library tree environment file = (library.settings? layer).elim (.error .settings) .ok := by
  rw [load]
  cases hfile with
  | absent habsent =>
    rw [Setting.ofTomlEntries] at hbelow
    simp only [habsent, Bool.false_eq_true, if_false, bind, Except.bind, hbelow, hlayer]
    cases library.settings? layer <;> rfl
  | present hpresent hlocate hlines =>
    have hentries := hlibrary.entries_eq hlocate hlines hdistinct.nodup
    simp only [hpresent, if_true, bind, Except.bind, hentries, hbelow, hlayer]
    cases library.settings? layer <;> rfl

/-- Loading reads a layer in which names have the values that they are given, or else the default ones. -/
theorem load_eq (hlibrary : library.Lawful) (hfile : FileLines tree file entries)
    (htop : ∀ entry ∈ entries, Layer.IsTop entry.1) (hdistinct : DistinctNames entries)
    (hvariables : Layer.Plain (library.ofEnvironment environment)) :
    ∃ layer : Layer,
      (∀ name, layer.lookup name =
        (library.given environment entries name).or (defaultLayer.lookup name)) ∧
      load library tree environment file = (library.settings? layer).elim (.error .settings) .ok := by
  obtain ⟨below, hbelow, hlookup⟩ :=
    hlibrary.lookup_overlay (hdistinct.plain htop) hfile.isSingle defaultLayer
  obtain ⟨layer, hlayer, hlookup'⟩ :=
    hlibrary.lookup_overlay hvariables (hlibrary.isSingle_ofEnvironment environment) below
  refine ⟨layer, fun name => ?_, ?_⟩
  · rw [hlookup', hlookup, Library.given, Option.or_assoc]
  · exact load_of_overlay hlibrary hfile hdistinct hbelow hlayer

end

end SieveFilter.Settings
