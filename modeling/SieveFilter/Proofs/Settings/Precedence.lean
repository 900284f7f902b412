import SieveFilter.CommandLine
import SieveFilter.Proofs.FileTree.Places
import SieveFilter.Proofs.Settings.Libraries

/-!
# Which value counts

Settings come from the command line, the environment, the settings file and the default values.  For each
setting the first of these that gives a value counts, and the values behind it are not even looked at.  One list
has all settings with their names and readings, so that what holds of every setting is said once.
-/

namespace SieveFilter.Settings

open CommandLine (Overrides)
open Text (Numeral.maxWord Numeral.maxSigned Numeral.readInt)

/-! ## The settings one by one -/

/-- One of the settings: its name, how a given value is converted for it, and where its value is found. -/
structure Field where
  Value : Type
  name : String
  /-- The value that a given one is converted to. -/
  convert : Setting → Option Value
  /-- The value of a layer that gives none. -/
  absent : Option Value
  get : Settings → Value
  /-- The value that the command line gives. -/
  flag : Overrides → Option Value

namespace Field

/-- A setting that every layer must give a value. -/
def required (name : String) (convert : Setting → Option α) (get : Settings → α)
    (flag : Overrides → Option α) : Field :=
  ⟨α, name, convert, none, get, flag⟩

/-- A setting that may be left without a value. -/
def optional (name : String) (convert : Setting → Option α) (get : Settings → Option α)
    (flag : Overrides → Option α) : Field where
  Value := Option α
  name := name
  convert
    | .nothing => some none
    | setting => (convert setting).map some
  absent := some none
  get := get
  flag overrides := (flag overrides).map some

/-- The value of the setting in a layer. -/
def reading (field : Field) (layer : Layer) : Option field.Value :=
  (layer.lookup field.name).elim field.absent field.convert

end Field

/-- The settings, whose values a library converts. -/
def Library.fields (library : Library) : List Field :=
  let word := library.count? Numeral.maxWord
  let bits := library.count? maxBits
  [.required "nrels" word rows Overrides.rows,
    .optional "expected_ideals" word expectedIdeals Overrides.expectedIdeals,
    .optional "min_rational" word leastRational Overrides.leastRational,
    .optional "min_algebraic" word leastAlgebraic Overrides.leastAlgebraic,
    .required "rlim" word rationalBase Overrides.rationalBase,
    .required "alim" word algebraicBase Overrides.algebraicBase,
    .required "lpbr" bits rationalBits Overrides.rationalBits,
    .required "lpba" bits algebraicBits Overrides.algebraicBits,
    .required "min_excess" word requiredExcess Overrides.requiredExcess,
    .required "keep" word keptExcess Overrides.keptExcess,
    .required "raw" library.flag? raw fun overrides => if overrides.raw then some true else none,
    .required "cost_policy" library.policy? costPolicy Overrides.costPolicy,
    .required "block_capacity" word blockCapacity fun _ => none,
    .required "log_level" library.text? logLevel fun _ => none]

/-- Settings are the same if each of them has the same value. -/
theorem eq_of_fields (library : Library) {first second : Settings}
    (h : ∀ field ∈ library.fields, field.get first = field.get second) : first = second := by
  cases first
  cases second
  simpa [Library.fields, Field.required, Field.optional] using h

theorem reading_required (layer : Layer) (name : String) (convert : Setting → Option α)
    (get : Settings → α) (flag : Overrides → Option α) :
    (Field.required name convert get flag).reading layer = layer.required name convert := by
  show (layer.lookup name).elim none convert = (layer.lookup name).bind convert
  cases layer.lookup name <;> rfl

theorem reading_optional (layer : Layer) (name : String) (convert : Setting → Option α)
    (get : Settings → Option α) (flag : Overrides → Option α) :
    (Field.optional name convert get flag).reading layer = layer.optional name convert := by
  rw [Layer.optional, Field.reading]
  show (layer.lookup name).elim (some none) (Field.optional name convert get flag).convert = _
  cases layer.lookup name with
  | none => rfl
  | some setting => cases setting <;> rfl

/-- The settings that a layer stands for have the values that it gives. -/
theorem reading_of_settings? {library : Library} {layer : Layer} {settings : Settings}
    (h : library.settings? layer = some settings) :
    ∀ field ∈ library.fields, field.reading layer = some (field.get settings) := by
  -- every reading must have succeeded for the next one to be tried
  obtain ⟨_, hrows, h⟩ := Option.bind_eq_some_iff.mp h
  obtain ⟨_, hideals, h⟩ := Option.bind_eq_some_iff.mp h
  obtain ⟨_, hrational, h⟩ := Option.bind_eq_some_iff.mp h
  obtain ⟨_, halgebraic, h⟩ := Option.bind_eq_some_iff.mp h
  obtain ⟨_, hrlim, h⟩ := Option.bind_eq_some_iff.mp h
  obtain ⟨_, halim, h⟩ := Option.bind_eq_some_iff.mp h
  obtain ⟨_, hlpbr, h⟩ := Option.bind_eq_some_iff.mp h
  obtain ⟨_, hlpba, h⟩ := Option.bind_eq_some_iff.mp h
  obtain ⟨_, hexcess, h⟩ := Option.bind_eq_some_iff.mp h
  obtain ⟨_, hkeep, h⟩ := Option.bind_eq_some_iff.mp h
  obtain ⟨_, hraw, h⟩ := Option.bind_eq_some_iff.mp h
  obtain ⟨_, hpolicy, h⟩ := Option.bind_eq_some_iff.mp h
  obtain ⟨_, hcapacity, h⟩ := Option.bind_eq_some_iff.mp h
  obtain ⟨_, hlevel, h⟩ := Option.bind_eq_some_iff.mp h
  cases h
  rw [Library.fields]
  simp only [List.forall_mem_cons, reading_required, reading_optional]
  exact ⟨hrows, hideals, hrational, halgebraic, hrlim, halim, hlpbr, hlpba, hexcess, hkeep, hraw,
    hpolicy, hcapacity, hlevel, List.forall_mem_nil _⟩

/-- A layer stands for settings as soon as each of them has a value in it. -/
theorem exists_settings? {library : Library} {layer : Layer}
    (h : ∀ field ∈ library.fields, (field.reading layer).isSome = true) :
    ∃ settings, library.settings? layer = some settings := by
  rw [Library.fields] at h
  simp only [List.forall_mem_cons, reading_required, reading_optional, Option.isSome_iff_exists] at h
  obtain ⟨⟨_, hrows⟩, ⟨_, hideals⟩, ⟨_, hrational⟩, ⟨_, halgebraic⟩, ⟨_, hrlim⟩, ⟨_, halim⟩,
    ⟨_, hlpbr⟩, ⟨_, hlpba⟩, ⟨_, hexcess⟩, ⟨_, hkeep⟩, ⟨_, hraw⟩, ⟨_, hpolicy⟩, ⟨_, hcapacity⟩,
    ⟨_, hlevel⟩, -⟩ := h
  simp only [Library.settings?, hrows, hideals, hrational, halgebraic, hrlim, halim, hlpbr, hlpba, hexcess,
    hkeep, hraw, hpolicy, hcapacity, hlevel]
  exact ⟨_, rfl⟩

theorem get_apply (library : Library) (overrides : Overrides) (settings : Settings) :
    ∀ field ∈ library.fields,
      field.get (overrides.apply settings) = (field.flag overrides).getD (field.get settings) := by
  have hoptional {α : Type} (flag loaded : Option α) :
      (flag <|> loaded) = (flag.map some).getD loaded := by
    cases flag <;> rfl
  have hraw : (overrides.raw || settings.raw) =
      (if overrides.raw then some true else none).getD settings.raw := by
    cases overrides.raw <;> rfl
  rw [Library.fields]
  simp only [List.forall_mem_cons]
  exact ⟨rfl, hoptional _ _, hoptional _ _, hoptional _ _, rfl, rfl, rfl, rfl, rfl, rfl, hraw, rfl, rfl, rfl,
    List.forall_mem_nil _⟩

/-- The bounds of the first pass, once the command line has been looked at. -/
theorem initialBounds_apply (overrides : Overrides) (settings : Settings) :
    (overrides.apply settings).initialBounds =
      ⟨(overrides.leastRational.or settings.leastRational).getD (overrides.apply settings).rationalBase,
        (overrides.leastAlgebraic.or settings.leastAlgebraic).getD
          (overrides.apply settings).algebraicBase⟩ := by
  simp only [initialBounds, Overrides.apply, Option.orElse_eq_orElse, Option.orElse_eq_or]

/-! ## Loading -/

/-- What a given value makes of a setting; a setting that is given none has its default value. -/
def Field.resolve (field : Field) (value : Option Setting) : Option field.Value :=
  value.elim (some (field.get default)) field.convert

theorem reading_of_lookup {library : Library} (hlibrary : library.Lawful) {field : Field}
    (hfield : field ∈ library.fields) {layer : Layer} {value : Option Setting}
    (hlookup : layer.lookup field.name = value.or (defaultLayer.lookup field.name)) :
    field.reading layer = field.resolve value := by
  cases value with
  | none =>
    have hdefault := reading_of_settings? hlibrary.settings?_defaultLayer field hfield
    rw [Field.reading, hlookup, Option.none_or]
    exact hdefault
  | some setting =>
    rw [Field.reading, hlookup]
    rfl

section

variable {library : Library} {tree : FileTree} {environment : List (String × String)} {file : Option String}
  {entries : Toml.Entries} (hlibrary : library.Lawful) (hfile : FileLines tree file entries)
  (htop : ∀ entry ∈ entries, Layer.IsTop entry.1) (hdistinct : DistinctNames entries)
  (hvariables : Layer.Plain (library.ofEnvironment environment))

include hlibrary hfile htop hdistinct hvariables

/-- Loading reads nothing but the given values, and all that can go wrong is that some value cannot be
converted. -/
theorem load_cases :
    (∃ settings, load library tree environment file = .ok settings ∧
      ∀ field ∈ library.fields,
        field.resolve (library.given environment entries field.name) = some (field.get settings)) ∨
    (load library tree environment file = .error .settings ∧
      ∃ field ∈ library.fields,
        field.resolve (library.given environment entries field.name) = none) := by
  obtain ⟨layer, hlookup, hload⟩ := load_eq hlibrary hfile htop hdistinct hvariables
  have hreads : ∀ field ∈ library.fields,
      field.reading layer = field.resolve (library.given environment entries field.name) :=
    fun field hfield => reading_of_lookup hlibrary hfield (hlookup field.name)
  cases hlayer : library.settings? layer with
  | some settings =>
    refine .inl ⟨settings, by rw [hload, hlayer]; rfl, fun field hfield => ?_⟩
    rw [← hreads field hfield]
    exact reading_of_settings? hlayer field hfield
  | none =>
    refine .inr ⟨by rw [hload, hlayer]; rfl, ?_⟩
    by_contra hnone
    have hsome : ∀ field ∈ library.fields, (field.reading layer).isSome = true := by
      intro field hfield
      rw [hreads field hfield, Option.isSome_iff_ne_none]
      exact fun h => hnone ⟨field, hfield, h⟩
    obtain ⟨settings, hsettings⟩ := exists_settings? hsome
    cases hlayer.symm.trans hsettings

/-- Settings are loaded exactly if each given value can be converted. -/
theorem exists_load_iff :
    (∃ settings, load library tree environment file = .ok settings) ↔
      ∀ field ∈ library.fields, ∀ value ∈ library.given environment entries field.name,
        (field.convert value).isSome = true := by
  rcases load_cases hlibrary hfile htop hdistinct hvariables with
    ⟨settings, hload, hresolve⟩ | ⟨hload, field, hfield, hnone⟩
  · refine iff_of_true ⟨settings, hload⟩ fun field hfield value hvalue => ?_
    have hconvert := hresolve field hfield
    rw [Option.mem_def.mp hvalue] at hconvert
    exact Option.isSome_iff_exists.mpr ⟨_, hconvert⟩
  · refine iff_of_false ?_ fun hconvert => ?_
    · rintro ⟨settings, hsettings⟩
      cases hload.symm.trans hsettings
    · cases hvalue : library.given environment entries field.name with
      | none =>
        rw [hvalue] at hnone
        cases hnone
      | some value =>
        have hsome := hconvert field hfield value hvalue
        rw [hvalue] at hnone
        rw [show field.convert value = none from hnone] at hsome
        cases hsome

/-- Settings fail to be loaded for one reason only. -/
theorem cause_of_load {cause : Failure} (hload : load library tree environment file = .error cause) :
    cause = .settings := by
  rcases load_cases hlibrary hfile htop hdistinct hvariables with ⟨settings, hloaded, -⟩ | ⟨hfails, -⟩
  · cases hloaded.symm.trans hload
  · exact (Except.error.inj (hfails.symm.trans hload)).symm

/-- A setting that is loaded has the given value, or else its default value. -/
theorem get_of_load {settings : Settings} (hload : load library tree environment file = .ok settings) :
    ∀ field ∈ library.fields, field.get settings =
      ((library.given environment entries field.name).bind field.convert).getD (field.get default) := by
  intro field hfield
  rcases load_cases hlibrary hfile htop hdistinct hvariables with
    ⟨loaded, hloaded, hresolve⟩ | ⟨hfails, -⟩
  · obtain rfl : loaded = settings := Except.ok.inj (hloaded.symm.trans hload)
    have hvalue := hresolve field hfield
    cases hgiven : library.given environment entries field.name with
    | none =>
      rw [hgiven] at hvalue
      exact (Option.some.inj hvalue).symm
    | some value =>
      rw [hgiven] at hvalue
      rw [Option.bind_some, show field.convert value = some (field.get loaded) from hvalue]
      rfl
  · cases hfails.symm.trans hload

/-- A setting that may be left without a value has one only where it is given. -/
theorem get_optional_of_load {settings : Settings}
    (hload : load library tree environment file = .ok settings) {name : String}
    {convert : Setting → Option α} {get : Settings → Option α} {flag : Overrides → Option α}
    (hfield : .optional name convert get flag ∈ library.fields) (hdefault : get default = none) :
    get settings = (library.given environment entries name).bind convert := by
  have hget : get settings = ((library.given environment entries name).bind
      (Field.optional name convert get flag).convert).getD (get default) :=
    get_of_load hlibrary hfile htop hdistinct hvariables hload _ hfield
  rw [hget, hdefault]
  cases hgiven : library.given environment entries name with
  | none => rfl
  | some setting =>
    have hsingle := hlibrary.isSingle_of_given hfile hgiven
    cases setting with
    | nothing => cases hsingle
    | _ =>
      show ((convert _).map some).getD none = convert _
      cases convert _ <;> rfl

end

section

variable {library : Library} {tree tree' : FileTree} {environment environment' : List (String × String)}
  {file file' : Option String} {entries entries' : Toml.Entries}

/-- What is loaded depends on the values that the settings are given, and on nothing else. -/
theorem load_congr (hlibrary : library.Lawful) (hfile : FileLines tree file entries)
    (htop : ∀ entry ∈ entries, Layer.IsTop entry.1) (hdistinct : DistinctNames entries)
    (hvariables : Layer.Plain (library.ofEnvironment environment)) (hfile' : FileLines tree' file' entries')
    (htop' : ∀ entry ∈ entries', Layer.IsTop entry.1) (hdistinct' : DistinctNames entries')
    (hvariables' : Layer.Plain (library.ofEnvironment environment'))
    (hsame : ∀ field ∈ library.fields,
      library.given environment' entries' field.name = library.given environment entries field.name) :
    load library tree' environment' file' = load library tree environment file := by
  rcases load_cases hlibrary hfile' htop' hdistinct' hvariables' with
    ⟨settings', hload', hresolve'⟩ | ⟨hload', field, hfield, hnone⟩
  · rcases load_cases hlibrary hfile htop hdistinct hvariables with
      ⟨settings, hload, hresolve⟩ | ⟨-, field, hfield, hnone⟩
    · have hall : settings' = settings := by
        refine eq_of_fields library fun field hfield => Option.some.inj ?_
        rw [← hresolve' field hfield, ← hresolve field hfield, hsame field hfield]
      rw [hload', hload, hall]
    · rw [← hsame field hfield, hresolve' field hfield] at hnone
      cases hnone
  · rcases load_cases hlibrary hfile htop hdistinct hvariables with
      ⟨settings, -, hresolve⟩ | ⟨hload, -⟩
    · rw [hsame field hfield, hresolve field hfield] at hnone
      cases hnone
    · rw [hload', hload]

/-- Without a settings file and without variables, the settings are the default ones. -/
theorem load_of_not_contains (hlibrary : library.Lawful)
    (hfile : tree.contains (file.getD defaultFile) = false)
    (henvironment : library.ofEnvironment environment = []) :
    load library tree environment file = .ok default := by
  have hvariables : Layer.Plain (library.ofEnvironment environment) := by
    rw [henvironment]
    exact ⟨List.nodup_nil, List.forall_mem_nil _⟩
  have hnone (name : String) : library.given environment [] name = none := by
    rw [Library.given, henvironment]
    rfl
  rcases load_cases hlibrary (.absent hfile) (List.forall_mem_nil _) List.nodup_nil hvariables with
    ⟨settings, hload, hresolve⟩ | ⟨-, field, -, hfails⟩
  · rw [hload]
    refine congrArg Except.ok (eq_of_fields library fun field hfield => ?_)
    have hvalue := hresolve field hfield
    rw [hnone] at hvalue
    exact (Option.some.inj hvalue).symm
  · rw [hnone] at hfails
    cases hfails

end

/-! ## Small settings files -/

/-- A working folder with a settings file of a text. -/
def folderWith (text : List Char) : FileTree :=
  ⟨[([defaultFile], (String.ofList text).toUTF8)], [], []⟩

theorem fileLines_folderWith {text : List Char} {entries : Toml.Entries} (hlines : Toml.Lines text entries) :
    FileLines (folderWith text) none entries := by
  have hname : FileTree.IsName defaultFile := by
    constructor <;> decide
  have hnode : (folderWith text).node [defaultFile] = .file (String.ofList text).toUTF8 := rfl
  have hcontains : (folderWith text).contains defaultFile = true := by
    rw [FileTree.contains, hname.open?_file hnode]
  have hfile : (folderWith text).file? defaultFile = some (String.ofList text).toUTF8 :=
    FileTree.file?_eq_some_iff.mpr ⟨_, hname.resolve_eq _, by decide, hnode, hname.endsAsFolder_eq⟩
  have hformat : (FileTree.split defaultFile).getLast?.bind Format.ofName? = some .toml := by
    rw [hname.split_eq]
    decide +kernel
  have hlocate : locate? (folderWith text) defaultFile = some ((String.ofList text).toUTF8, .toml) := by
    rw [locate?, hfile]
    simp only [hformat, Option.map_some]
  exact .present hcontains hlocate (by rwa [String.toList_ofList])

/-- Comments, blanks, both line ends, and no line end behind the last line. -/
def sampleText : List Char :=
  "# sizes".toList ++ (['\r', '\n'] ++ ("\tKEEP = 0x10 # rows".toList ++ (['\n'] ++
    ("cost_policy=\"bl\\u0065nd\"".toList ++ (['\n'] ++ ("raw = true".toList ++ (['\n'] ++
      "'other' = 'keep'".toList)))))))

def sampleEntries : Toml.Entries :=
  [("KEEP", .integer 16), ("cost_policy", .text "blend"), ("raw", .boolean true), ("other", .text "keep")]

def sampleVariables : List (String × String) :=
  [("PURGE_RLIM", "500"), ("purge_lpbr", "26"), ("HOME", "/"), ("PURGE_Other", "7")]

def sampleOverrides : Overrides :=
  { Overrides.none with keptExcess := some 7, leastAlgebraic := some 3 }

theorem lines_sample : Toml.Lines sampleText sampleEntries := by
  have hsizes : Toml.Line "# sizes".toList none :=
    .empty (List.forall_mem_nil _) (.inr ⟨" sizes".toList, rfl, List.all_eq_true.mp (by decide)⟩)
  have hkeep : Toml.Line "\tKEEP = 0x10 # rows".toList (some ("KEEP", .integer 16)) :=
    @Toml.Line.entry ['\t'] "KEEP".toList [' '] [' '] "0x10".toList [' '] "# rows".toList _ _ (by decide)
      (Toml.isKey_of_isKeyChar (by decide) (by decide)) (by decide) (by decide)
      (Toml.isLiteral_integer (by decide)) (by decide)
      (.inr ⟨" rows".toList, rfl, List.all_eq_true.mp (by decide)⟩)
  have hpolicy : Toml.Line "cost_policy=\"bl\\u0065nd\"".toList (some ("cost_policy", .text "blend")) := by
    have hescape (rest : List Char) :
        Toml.readEscape ("u0065".toList ++ rest) = some ('e', rest) := by
      rfl
    have hbody : Toml.Escaped "bl\\u0065nd".toList "blend".toList :=
      .plain (by decide) (by decide) (by decide) (.plain (by decide) (by decide) (by decide)
        (.escape hescape (Toml.escaped_self (by decide))))
    exact @Toml.Line.entry [] "cost_policy".toList [] [] "\"bl\\u0065nd\"".toList [] [] _ _ (by decide)
      (Toml.isKey_of_isKeyChar (by decide) (by decide)) (by decide) (by decide)
      (Toml.isLiteral_escaped hbody) (by decide) (.inl rfl)
  have hraw : Toml.Line "raw = true".toList (some ("raw", .boolean true)) :=
    @Toml.Line.entry [] "raw".toList [' '] [' '] "true".toList [] [] _ _ (by decide)
      (Toml.isKey_of_isKeyChar (by decide) (by decide)) (by decide) (by decide)
      (Toml.isLiteral_boolean true) (by decide) (.inl rfl)
  have hother : Toml.Line "'other' = 'keep'".toList (some ("other", .text "keep")) := by
    have hname : Toml.Verbatim "other".toList := by decide
    have hkeep : Toml.Verbatim "keep".toList := by decide
    exact @Toml.Line.entry [] "'other'".toList [' '] [' '] "'keep'".toList [] [] _ _ (by decide)
      (Toml.isKey_verbatim hname) (by decide) (by decide)
      (Toml.isLiteral_verbatim hkeep) (by decide) (.inl rfl)
  exact .next hsizes (.inr rfl) (.next hkeep (.inl rfl) (.next hpolicy (.inl rfl)
    (.next hraw (.inl rfl) (.last hother))))

theorem ofVariable_of_readInt {value : String} {n : ℤ} (htrue : value.toLower ≠ "true")
    (hfalse : value.toLower ≠ "false") (hread : Numeral.readInt Numeral.maxSigned value.toList = .ok n) :
    Setting.ofVariable value = .integer n := by
  rw [Setting.ofVariable]
  split
  next heq => exact absurd heq htrue
  next heq => exact absurd heq hfalse
  next => rw [hread]

theorem ofEnvironment_sample :
    Library.standard.ofEnvironment sampleVariables =
      [("rlim", .integer 500), ("lpbr", .integer 26), ("other", .integer 7)] := by
  have hnames : sampleVariables.map (fun entry => Layer.ofVariableName? entry.1) =
      [some "rlim", some "lpbr", none, some "other"] := by decide +kernel
  simp only [sampleVariables, List.map_cons, List.map_nil, List.cons.injEq, and_true] at hnames
  obtain ⟨hrlim, hlpbr, hhome, hother⟩ := hnames
  have h500 : Setting.ofVariable "500" = .integer 500 :=
    ofVariable_of_readInt (by decide +kernel) (by decide +kernel) rfl
  have h26 : Setting.ofVariable "26" = .integer 26 :=
    ofVariable_of_readInt (by decide +kernel) (by decide +kernel) rfl
  have h7 : Setting.ofVariable "7" = .integer 7 :=
    ofVariable_of_readInt (by decide +kernel) (by decide +kernel) rfl
  simp only [Library.ofEnvironment, Library.standard, sampleVariables, List.filterMap_cons, hrlim, hlpbr,
    hhome, hother, h500, h26, h7]
  rfl

theorem plain_sample : Layer.Plain (Library.standard.ofEnvironment sampleVariables) := by
  rw [ofEnvironment_sample]
  exact ⟨by decide +kernel, by decide⟩

theorem given_sample :
    (Library.standard.fields.map fun field =>
        Library.standard.given sampleVariables sampleEntries field.name) =
      [none, none, none, none, some (.integer 500), none, some (.integer 26), none, none,
        some (.integer 16), some (.boolean true), some (.text "blend"), none, none] := by
  have hfold : ["rlim", "lpbr", "other", "KEEP", "cost_policy", "raw"].map Setting.fold =
      ["rlim", "lpbr", "other", "keep", "cost_policy", "raw"] := by decide +kernel
  simp only [List.map_cons, List.map_nil, List.cons.injEq, and_true] at hfold
  obtain ⟨hrlim, hlpbr, hother, hkeep, hpolicy, hraw⟩ := hfold
  have hgiven (name : String) : Library.standard.given sampleVariables sampleEntries name =
      [("rlim", .integer 500), ("lpbr", .integer 26), ("other", .integer 7), ("keep", .integer 16),
        ("cost_policy", .text "blend"), ("raw", .boolean true), ("other", .text "keep")].lookup name := by
    rw [Library.given, ofEnvironment_sample, Setting.ofTomlEntries_eq, Layer.value?, Layer.value?,
      ← List.lookup_append]
    simp only [sampleEntries, List.map_cons, List.map_nil, hrlim, hlpbr, hother, hkeep, hpolicy, hraw]
    rfl
  simp [Library.fields, Field.required, Field.optional, hgiven, List.lookup_cons]

/-- A line whose key, in quotes, leads to a part of a setting. -/
def positionText : List Char :=
  "\"nrels[0 ]\" = 5".toList ++ (['\n'] ++ [])

def positionEntries : Toml.Entries :=
  [("nrels[0 ]", .integer 5)]

theorem lines_position : Toml.Lines positionText positionEntries := by
  have hname : Toml.Escaped "nrels[0 ]".toList "nrels[0 ]".toList := Toml.escaped_self (by decide)
  have hline : Toml.Line "\"nrels[0 ]\" = 5".toList (some ("nrels[0 ]", .integer 5)) :=
    @Toml.Line.entry [] "\"nrels[0 ]\"".toList [' '] [' '] "5".toList [] [] _ _ (by decide)
      (Toml.isKey_escaped hname) (by decide) (by decide) (Toml.isLiteral_integer (by decide)) (by decide)
      (.inl rfl)
  exact .next hline (.inl rfl) (.last (.empty (List.forall_mem_nil _) (.inl rfl)))

end SieveFilter.Settings
