import SieveFilter.Proofs.CommandLine.Completion
import SieveFilter.Proofs.Reduction.Breakdowns
import SieveFilter.Proofs.Settings.Precedence

/-!
# How a filtering run of the program ends

No file is touched before the settings have passed their checks.  A task that completes after them leaves its
files behind with all that was written; one that fails removes its matrix and its map.  Only a run that breaks
off skips the removal, and it does so only where there is no storage for its table or its blocks, where a sum
is trapped, or where the terminal does not take the last words.
-/

namespace SieveFilter.CommandLine

open FileTree (Agree)

namespace Task

variable {task : Task} {platform : Platform} {machine : Machine} {settings : Settings}
  {environment : List (String × String)} {tree after : FileTree} {output : Reduction.Output}
  {report : Report}

/-! ## The checks before the first file -/

/-- The settings of a task pass the checks that are made before any file is created. -/
structure PassesChecks (task : Task) (library : Settings.Library) (environment : List (String × String))
    (tree : FileTree) (settings : Settings) : Prop where
  loads : ∃ loaded, Settings.load library tree environment task.settingsFile = .ok loaded ∧
    task.overrides.apply loaded = settings
  rows_ne : settings.rows ≠ 0
  given : task.inputs ≠ [] ∨ task.fileList ≠ none

theorem PassesChecks.unique {library : Settings.Library} {other : Settings}
    (h : task.PassesChecks library environment tree settings)
    (h' : task.PassesChecks library environment tree other) : settings = other := by
  obtain ⟨loaded, hloads, rfl⟩ := h.loads
  obtain ⟨loaded', hloads', rfl⟩ := h'.loads
  rw [hloads] at hloads'
  rw [Except.ok.inj hloads']

/-- A task is cut short where it breaks off, or where the terminal does not take the last words. -/
inductive CutShort (task : Task) (platform : Platform) (settings : Settings) (tree : FileTree) : Prop
  | breaksOff (hbreaks : (task.execute platform.machine settings tree).outcome = .error .breakdown)
  | output {report : Report}
      (hcompletes : (task.execute platform.machine settings tree).outcome = .ok report)
      (hclosed : platform.terminal.output = false)
  | errors {cause : Failure}
      (hfails : (task.execute platform.machine settings tree).outcome = .error cause)
      (hclosed : platform.terminal.errors = false)

/-- The ways in which a task ends once its settings have passed the checks. -/
inductive Finishes (task : Task) (platform : Platform) (settings : Settings) (tree : FileTree)
    (ending : Ending) : Prop
  | completes (report : Report)
      (hends : (task.execute platform.machine settings tree).Ends ending.tree report)
      (hopen : platform.terminal.output = true) (hcode : ending.code = 0)
  | cutShort (hcut : task.CutShort platform settings tree)
      (htree : ending.tree = (task.execute platform.machine settings tree).state)
      (hcode : ending.code = breakdownCode)
  | fails (cause : Failure) (after : FileTree) (hcause : cause ≠ .breakdown)
      (hfails : (task.execute platform.machine settings tree).Fails after cause) (hcode : ending.code = 1)
      (htree : ending.tree = task.discard after)

theorem PassesChecks.finishes (h : task.PassesChecks platform.library environment tree settings) :
    task.Finishes platform settings tree (task.run platform environment tree) := by
  obtain ⟨⟨loaded, hloads, rfl⟩, hrows, hgiven⟩ := h
  have hsome : ¬ (task.inputs = [] ∧ task.fileList = none) := not_and_or.mpr hgiven
  rw [Task.run, hloads]
  simp only [finish, if_neg hrows, if_neg hsome]
  cases houtcome : (task.execute platform.machine (task.overrides.apply loaded) tree).outcome with
  | ok report =>
    cases hopen : platform.terminal.output with
    | true => exact .completes report ⟨rfl, houtcome⟩ hopen rfl
    | false => exact .cutShort (.output houtcome hopen) rfl rfl
  | error cause =>
    cases cause with
    | breakdown => exact .cutShort (.breaksOff houtcome) rfl rfl
    | _ =>
      cases hopen : platform.terminal.errors with
      | true => exact .fails _ _ (by simp) ⟨rfl, houtcome⟩ rfl rfl
      | false => exact .cutShort (.errors houtcome hopen) rfl rfl

/-- Where the checks are not passed, the program fails and touches nothing. -/
theorem run_of_not_passesChecks
    (h : ∀ settings, ¬ task.PassesChecks platform.library environment tree settings) :
    (task.run platform environment tree).code ≠ 0 ∧ (task.run platform environment tree).tree = tree := by
  rw [Task.run]
  cases hloads : Settings.load platform.library tree environment task.settingsFile with
  | error cause =>
    have hbroken : breakdownCode ≠ 0 := by decide
    cases cause with
    | breakdown => exact ⟨hbroken, rfl⟩
    | _ =>
      cases platform.terminal.errors with
      | true => exact ⟨Nat.one_ne_zero, rfl⟩
      | false => exact ⟨hbroken, rfl⟩
  | ok loaded =>
    simp only [finish]
    split
    next => exact ⟨Nat.one_ne_zero, rfl⟩
    next hrows =>
      split
      next => exact ⟨Nat.one_ne_zero, rfl⟩
      next hsome => exact absurd ⟨⟨loaded, hloads, rfl⟩, hrows, not_and_or.mp hsome⟩ (h _)

/-! ## Breaking off -/

theorem not_starves_createFile (tree : FileTree) (path : String) :
    ¬ (createFile tree path).Starves := by
  rw [createFile]
  split
  · exact Run.not_starves_done
  · exact Run.not_starves_fail id

theorem not_starves_createMap (task : Task) (tree : FileTree) : ¬ (task.createMap tree).Starves := by
  rw [createMap]
  split
  · exact Run.not_starves_done
  · exact Run.not_starves_next (not_starves_createFile _ _) fun _ _ => Run.not_starves_done

theorem not_starves_storeReport (task : Task) (tree : FileTree) (report : Report) :
    ¬ (task.storeReport tree report).Starves := by
  rw [storeReport]
  split
  · exact Run.not_starves_done
  · refine Run.not_starves_next ?_ fun _ _ => Run.not_starves_done
    refine Run.not_starves_next (not_starves_createFile _ _) fun created place => ?_
    rw [checkRoom]
    split
    · exact Run.not_starves_done
    · exact Run.not_starves_fail id

theorem not_starves_checkOutput (matrix : Parts) (map : Option Parts) (output : Reduction.Output) :
    ¬ (checkOutput matrix map output).Starves := by
  simp only [checkOutput]
  generalize (FileTree.hasRoom matrix output.matrix.written && _) = fits
  cases fits with
  | true => exact Run.not_starves_done
  | false => exact Run.not_starves_fail id

/-- What lets no task break off: storage for its table, and settings and relations that let no reduction do
so. -/
structure Sturdy (task : Task) (machine : Machine) (settings : Settings) (tree : FileTree) : Prop where
  holds : machine.holds settings.rows settings.rosterCapacity = true
  reduces : ∀ paths, task.paths tree = .ok paths →
    Reduction.Sturdy machine.build settings (Stream.ofFiles tree paths)

/-- A sturdy reduction into files does not break off. -/
theorem not_breakdown_reduce {paths : List String} {matrix : Parts} {map : Option Parts}
    (hholds : machine.holds settings.rows settings.rosterCapacity = true)
    (hsturdy : Reduction.Sturdy machine.build settings (Stream.ofFiles tree paths)) :
    ¬ (reduce machine settings paths tree matrix map).Fails after .breakdown := by
  intro hfails
  rcases Run.fails_next.mp hfails with hstart | ⟨_, fresh, hstart, hreduction⟩
  · obtain ⟨_, hstart, -⟩ := Run.fails_within.mp hstart
    have hnone := (Reduction.fails_start.mp hstart).1
    exact Bool.false_ne_true (hnone.symm.trans hholds)
  · obtain ⟨_, hfresh, rfl⟩ := Run.ends_within.mp hstart
    obtain ⟨-, rfl⟩ := Reduction.ends_start.mp hfresh
    obtain ⟨_, hrun, -⟩ := Run.fails_within.mp hreduction
    rcases Run.fails_next.mp hrun with hbreaks | ⟨_, _, -, hcheck⟩
    · exact hsturdy.run_ne_breakdown _ _ _ hbreaks.2
    · rcases Run.fails_next.mp hcheck with hstarves | ⟨_, _, -, hdone⟩
      · exact not_starves_checkOutput _ _ _ ⟨.breakdown, trivial, hstarves.2⟩
      · exact Run.not_fails_done hdone

theorem Separate.not_breakdown_execute (h : task.Separate tree) (hsturdy : task.Sturdy machine settings tree) :
    (task.execute machine settings tree).outcome ≠ .error .breakdown := by
  intro hbreaks
  have hstarves {α : Type} {run : Run FileTree α} {stopped : FileTree}
      (hfails : run.Fails stopped .breakdown) : run.Starves := ⟨.breakdown, trivial, hfails.2⟩
  obtain ⟨_, hfails⟩ := Run.exists_fails hbreaks
  rw [execute] at hfails
  cases hpaths : task.paths tree with
  | error cause => simp [hpaths] at hfails
  | ok paths =>
    simp only [hpaths, Run.fails_next] at hfails
    obtain hmatrix | ⟨_, matrix, hcreated, hmap | ⟨_, map, hopened, hreduce | ⟨_, _, -, hreport⟩⟩⟩ :=
      hfails
    · exact not_starves_createFile _ _ (hstarves hmatrix)
    · exact not_starves_createMap _ _ (hstarves hmap)
    · obtain ⟨hmatrix, rfl⟩ := ends_createFile.mp hcreated
      obtain ⟨hmap, rfl⟩ := (ends_open hmatrix).mp hopened
      have htexts := texts_ofFiles_congr (agree_opened hmatrix hmap) (h.avoids hpaths)
      exact not_breakdown_reduce hsturdy.holds ((hsturdy.reduces paths hpaths).of_texts_eq htexts) hreduce
    · exact not_starves_storeReport _ _ _ (hstarves hreport)

/-- A task for whose table there is no storage breaks off with its files created and nothing written to them. -/
theorem fails_execute_of_not_holds (hnone : machine.holds settings.rows settings.rosterCapacity = false)
    {paths : List String} (hpaths : task.paths tree = .ok paths) {matrix : Parts} {map : Option Parts}
    (hmatrix : tree.NamesFile task.matrix matrix) (hmap : Option.Rel tree.NamesFile task.map map) :
    (task.execute machine settings tree).Fails (opened tree matrix map) .breakdown := by
  have hstart : (Reduction.start machine settings settings.costPolicy.cost).Fails () .breakdown :=
    Reduction.fails_start.mpr ⟨hnone, rfl⟩
  have hreduce : (reduce machine settings paths (opened tree matrix map) matrix map).Fails
      (opened tree matrix map) .breakdown :=
    Run.fails_next.mpr (.inl (Run.fails_within.mpr ⟨(), hstart, rfl⟩))
  rw [execute, hpaths]
  exact Run.fails_next.mpr (.inr ⟨_, matrix, ends_createFile.mpr ⟨hmatrix, rfl⟩,
    Run.fails_next.mpr (.inr ⟨_, map, (ends_open hmatrix).mpr ⟨hmap, rfl⟩,
      Run.fails_next.mpr (.inl hreduce)⟩)⟩)

/-! ## What is left behind -/

/-- After a failure nothing is left of matrix and map, if their files can be removed. -/
theorem Separate.contains_discard (h : task.Separate tree) (hagree : Agree (task.places tree) tree after)
    {path : String} (hpath : path ∈ task.matrix :: task.map.toList)
    (hloose : tree.Removable path) : (task.discard after).contains path = false := by
  have hremoved {other : FileTree} (hother : Agree (task.places tree) tree other)
      (hout : path ∈ task.outputs) : (other.remove path).contains path = false := by
    refine FileTree.contains_remove_self (fun place hplace => ?_) (hother.removable_iff.mpr hloose)
    rw [hother.isFolder_eq]
    exact h.files path hout place (hother.resolve_eq_ok.mp hplace)
  have hmatrix := hagree.remove fun place => mem_places matrix_mem_outputs
  rw [discard]
  rcases List.mem_cons.mp hpath with rfl | hin
  · have hgone := hremoved hagree matrix_mem_outputs
    cases hmap : task.map with
    | none => exact hgone
    | some map =>
      -- the map is removed afterwards, from a place of its own
      have hapart := h.apart
      rw [outputs, hmap, List.pairwise_cons] at hapart
      show ((after.remove task.matrix).remove map).contains task.matrix = false
      cases hresolve : (after.remove task.matrix).resolve map with
      | error cause =>
        rw [FileTree.remove, hresolve]
        exact hgone
      | ok place =>
        rw [(FileTree.agree_remove hresolve).contains_eq, hgone]
        intro other hother hsame
        cases List.mem_singleton.mp hsame
        exact hapart.1 map (by simp) _ (hmatrix.resolve_eq_ok.mp hother)
          (hmatrix.resolve_eq_ok.mp hresolve)
  · rw [Option.mem_toList] at hin
    rw [hin]
    exact hremoved hmatrix (map_mem_outputs hin)

/-- A task for whose table there is no storage leaves its matrix file. -/
theorem Separate.contains_of_not_holds (h : task.Separate tree)
    (hchecks : task.PassesChecks platform.library environment tree settings)
    (hnone : platform.machine.holds settings.rows settings.rosterCapacity = false) {paths : List String}
    (hpaths : task.paths tree = .ok paths) {matrix : Parts} (hmatrix : tree.NamesFile task.matrix matrix)
    (hdevice : FileTree.isDevice matrix = false)
    (hmaps : ∀ path ∈ task.map, ∃ place, tree.NamesFile path place) :
    (task.run platform environment tree).code = breakdownCode ∧
      (task.run platform environment tree).tree.contains task.matrix = true := by
  obtain ⟨map, hmap⟩ := exists_rel hmaps
  have hbreaks := fails_execute_of_not_holds hnone hpaths hmatrix hmap
  have hopened := agree_opened hmatrix hmap
  have hcontains : (opened tree matrix map).contains task.matrix = true := by
    rw [FileTree.contains_iff]
    exact ⟨matrix, hopened.resolve_eq_ok.mpr hmatrix.resolve_eq,
      .inr ⟨⟨_, node_opened_matrix hmatrix hmap (h.map_ne hmatrix hmap) hdevice⟩,
        hmatrix.endsAsFolder_eq⟩⟩
  cases hchecks.finishes with
  | completes report hends hopen hcode => exact absurd hends hbreaks.not_ends
  | fails cause after hcause hfails hcode htree =>
    exact absurd (Except.error.inj (hfails.2.symm.trans hbreaks.2)) hcause
  | cutShort hcut htree hcode =>
    rw [htree, hbreaks.1]
    exact ⟨hcode, hcontains⟩

/-- However a task ends, it changes nothing but the files that it writes. -/
theorem agree_run (task : Task) (platform : Platform) (environment : List (String × String))
    (tree : FileTree) : Agree (task.places tree) tree (task.run platform environment tree).tree := by
  by_cases hchecks : ∃ settings, task.PassesChecks platform.library environment tree settings
  · obtain ⟨settings, hchecks⟩ := hchecks
    have hexecute := task.agree_execute platform.machine settings tree
    cases hchecks.finishes with
    | completes report hends hopen hcode => exact hends.1 ▸ hexecute
    | cutShort hcut htree hcode => exact htree ▸ hexecute
    | fails cause after hcause hfails hcode htree =>
      rw [hfails.1] at hexecute
      exact htree ▸ agree_discard hexecute
  · rw [(run_of_not_passesChecks fun settings h => hchecks ⟨settings, h⟩).2]
    exact .refl _ tree

theorem Completes.unique {output' : Reduction.Output} {report' : Report}
    (h : task.Completes machine settings tree output report)
    (h' : task.Completes machine settings tree output' report') : output = output' ∧ report = report' := by
  obtain ⟨paths, hpaths, hends⟩ := h.reduces
  obtain ⟨paths', hpaths', hends'⟩ := h'.reduces
  cases hpaths.symm.trans hpaths'
  exact hends.unique hends'

/-- Once a task has completed its files hold what was written to them. -/
theorem Separate.file?_of_completes (h : task.Separate tree)
    (hchecks : task.PassesChecks platform.library environment tree settings)
    (hcompletes : task.Completes platform.machine settings tree output report) :
    ∀ file ∈ task.contents output report, ¬ tree.NamesDevice file.1 →
      (task.run platform environment tree).tree.file? file.1 = some file.2 := by
  obtain ⟨final, hfinal⟩ := h.exists_ends hcompletes
  have htree : (task.run platform environment tree).tree = final := by
    cases hchecks.finishes with
    | completes report hends hopen hcode => exact (hends.unique hfinal).1
    | cutShort hcut htree hcode => exact htree.trans hfinal.1
    | fails cause after hcause hfails hcode htree => exact absurd hfinal hfails.not_ends
  intro file hfile hdevice
  obtain ⟨output', hcompletes', hwritten⟩ := h.of_ends hfinal
  obtain ⟨rfl, -⟩ := hcompletes.unique hcompletes'
  obtain ⟨place, hnames, -⟩ := hcompletes.takes file hfile
  have hplain : FileTree.isDevice place = false := by
    rw [← Bool.not_eq_true]
    exact fun hnull => hdevice ⟨place, hnames.resolve_eq, hnull⟩
  have hresolve := (task.agree_run platform environment tree).resolve_eq_ok.mpr hnames.resolve_eq
  rw [htree] at hresolve ⊢
  exact FileTree.file?_eq_some_iff.mpr ⟨place, hresolve, hplain,
    hwritten file hfile place hnames hplain, hnames.endsAsFolder_eq⟩

/-! ## Exit codes -/

/-- The program ends with success exactly when the checks are passed, the task completes and the terminal
takes the summary. -/
theorem Separate.code_eq_zero_iff (h : task.Separate tree) (platform : Platform)
    (environment : List (String × String)) :
    (task.run platform environment tree).code = 0 ↔
      platform.terminal.output = true ∧ ∃ settings output report,
        task.PassesChecks platform.library environment tree settings ∧
        task.Completes platform.machine settings tree output report := by
  constructor
  · intro hcode
    by_cases hchecks : ∃ settings, task.PassesChecks platform.library environment tree settings
    · obtain ⟨settings, hchecks⟩ := hchecks
      cases hchecks.finishes with
      | completes report hends hopen _ =>
        obtain ⟨output, hcompletes, -⟩ := h.of_ends hends
        exact ⟨hopen, settings, output, report, hchecks, hcompletes⟩
      | cutShort _ _ hother => exact absurd (hother.symm.trans hcode) (by decide)
      | fails _ _ _ _ hother _ => exact absurd (hother.symm.trans hcode) Nat.one_ne_zero
    · exact absurd hcode (run_of_not_passesChecks fun settings h => hchecks ⟨settings, h⟩).1
  · rintro ⟨hopen, settings, output, report, hchecks, hcompletes⟩
    obtain ⟨final, hfinal⟩ := h.exists_ends hcompletes
    cases hchecks.finishes with
    | completes _ _ _ hcode => exact hcode
    | fails _ _ _ hfails _ _ => exact absurd hfinal hfails.not_ends
    | cutShort hcut _ _ =>
      cases hcut with
      | breaksOff hbreaks => cases hfinal.2.symm.trans hbreaks
      | output _ hclosed => exact absurd (hclosed.symm.trans hopen) Bool.false_ne_true
      | errors hfails _ => cases hfinal.2.symm.trans hfails

/-- Matrix and map are gone after every failure that is not cut short, if their files can be removed. -/
theorem Separate.contains_eq_false (h : task.Separate tree)
    (hchecks : task.PassesChecks platform.library environment tree settings)
    (hfailed : (task.run platform environment tree).code ≠ 0)
    (hwhole : (task.run platform environment tree).code ≠ breakdownCode) {path : String}
    (hpath : path ∈ task.matrix :: task.map.toList) (hloose : tree.Removable path) :
    (task.run platform environment tree).tree.contains path = false := by
  cases hchecks.finishes with
  | completes report hends hopen hcode => exact absurd hcode hfailed
  | cutShort hcut htree hcode => exact absurd hcode hwhole
  | fails cause after hcause hfails hcode htree =>
    have hexecute := task.agree_execute platform.machine settings tree
    rw [hfails.1] at hexecute
    rw [htree]
    exact h.contains_discard hexecute hpath hloose

/-- No sturdy task is cut short on a terminal that works. -/
theorem Separate.code_ne_breakdownCode (h : task.Separate tree)
    (hchecks : task.PassesChecks platform.library environment tree settings)
    (hopen : platform.terminal = ⟨true, true⟩)
    (hsturdy : task.Sturdy platform.machine settings tree) :
    (task.run platform environment tree).code ≠ breakdownCode := by
  intro hcode
  cases hchecks.finishes with
  | completes _ _ _ hother => exact absurd (hother.symm.trans hcode) (by decide)
  | fails _ _ _ _ hother _ => exact absurd (hother.symm.trans hcode) (by decide)
  | cutShort hcut _ _ =>
    cases hcut with
    | breaksOff hbreaks => exact h.not_breakdown_execute hsturdy hbreaks
    | output _ hclosed => cases (congrArg Terminal.output hopen).symm.trans hclosed
    | errors _ hclosed => cases (congrArg Terminal.errors hopen).symm.trans hclosed

end Task

/-- A command line that asks for the matrix of five relations. -/
def sampleArguments (expected : String) : List String :=
  ["--out", "m", "--nprimes", expected, "r", "--nrels", "5"]

def sampleTask (expected : ℕ) : Task where
  overrides := { Overrides.none with rows := some 5, expectedIdeals := some expected }
  inputs := ["r"]
  fileList := none
  matrix := "m"
  map := none
  settingsFile := none
  report := none

/-- The settings of the task, which are the default ones where it says nothing. -/
def sampleSettings (expected : ℕ) : Settings :=
  { Settings.default with rows := 5, expectedIdeals := some expected }

/-- Five relations that share two ideals. -/
def sampleRelations : String :=
  "0,1:3,5:\n1,1:3,5:\n2,1:3,5:\n3,1:3,5:\n4,1:3,5:\n"

/-- A working folder in which the relations are the only file. -/
def sampleTree (name : String) : FileTree :=
  ⟨[([name], sampleRelations.toUTF8)], [], []⟩

theorem isName_matrix : FileTree.IsName "m" := by
  constructor <;> decide

theorem isName_relations : FileTree.IsName "r" := by
  constructor <;> decide

theorem isName_defaultFile : FileTree.IsName Settings.defaultFile := by
  constructor <;> decide

/-- Names lead to files in the sample folder. -/
theorem namesFile_sample {path : String} (h : FileTree.IsName path) (name : String) :
    (sampleTree name).NamesFile path [path] := by
  have hroot : path ≠ "/" := by
    rintro rfl
    exact h.plain (by decide)
  refine ⟨h.resolve_eq _, ?_, h.endsAsFolder_eq⟩
  simp [FileTree.isFolder, FileTree.isOutermost, sampleTree, hroot, h.ne_dots]

theorem separate_sample (expected : ℕ) (name : String) :
    (sampleTask expected).Separate (sampleTree name) := by
  have hmatrix := isName_matrix.resolve_eq (sampleTree name)
  have hrelations := isName_relations.resolve_eq (sampleTree name)
  refine ⟨List.pairwise_singleton _ _, ?_, ?_⟩
  · rintro paths ⟨⟩ input hinput path hpath place hplace hsame
    cases List.mem_singleton.mp hinput
    cases List.mem_singleton.mp hpath
    cases hrelations.symm.trans hplace
    exact absurd (hmatrix.symm.trans hsame) (by decide)
  · intro path hpath place hplace
    cases List.mem_singleton.mp hpath
    cases hmatrix.symm.trans hplace
    exact (namesFile_sample isName_matrix name).isFolder_eq

theorem passesChecks_sample (expected : ℕ) (name : String) (hname : name ≠ Settings.defaultFile) :
    (sampleTask expected).PassesChecks .standard [] (sampleTree name) (sampleSettings expected) := by
  have hnames := namesFile_sample isName_defaultFile name
  have hlookup : (sampleTree name).files.lookup [Settings.defaultFile] = none := by
    simp [sampleTree, hname.symm]
  have hnode : (sampleTree name).node [Settings.defaultFile] = .missing := by
    rw [FileTree.node_eq hnames.isFolder_eq, hlookup]
    rfl
  have hloads : Settings.load .standard (sampleTree name) [] none = .ok .default :=
    Settings.load_of_not_contains Settings.Library.lawful_standard (hnames.contains_eq_false hnode) rfl
  exact ⟨⟨.default, hloads, rfl⟩, Nat.succ_ne_zero 4, .inl (List.cons_ne_nil _ _)⟩

/-- Reading the relations opens their file and yields its lines. -/
theorem ofFiles_sample : Stream.ofFiles (sampleTree "r") ["r"] = fun _ =>
    [.opened "r", .line "0,1:3,5:", .line "1,1:3,5:", .line "2,1:3,5:", .line "3,1:3,5:",
      .line "4,1:3,5:"] := by
  have hnode : (sampleTree "r").node ["r"] = .file sampleRelations.toUTF8 := rfl
  have hopen := isName_relations.open?_file hnode
  have hlines : (Stream.textLines sampleRelations.toUTF8).map Stream.lineEvent =
      [.line "0,1:3,5:", .line "1,1:3,5:", .line "2,1:3,5:", .line "3,1:3,5:", .line "4,1:3,5:"] := by
    decide +kernel
  funext reading
  simp only [Stream.ofFiles, List.flatMap_singleton, Stream.fileEvents, hopen, hlines]

/-- Where the relations are missing, reading them is a fault. -/
theorem ofFiles_sample_missing : Stream.ofFiles (sampleTree "m") ["r"] = fun _ =>
    [.fault (.missing (some "r"))] := by
  have hnode : (sampleTree "m").node ["r"] = .missing := rfl
  have hopen := isName_relations.open?_missing hnode
  funext reading
  simp [Stream.ofFiles, Stream.fileEvents, hopen, Fault.onPath]

/-- The matrix of the sample relations. -/
def sampleMatrix : String :=
  "5 2\n0 2 0 1\n1 2 0 1\n2 2 0 1\n3 2 0 1\n4 2 0 1\n"

theorem completes_sample : ∃ output report,
    (sampleTask 50).Completes (.addressed .checked) (sampleSettings 50) (sampleTree "r") output report ∧
      output.matrix.written = sampleMatrix.toUTF8 := by
  let reduction := (sampleTask 50).reduction .checked (sampleSettings 50) (sampleTree "r") ["r"]
  have hruns : reduction.outcome.isOk = true ∧ reduction.state.matrix.written = sampleMatrix.toUTF8 := by
    simp only [reduction, Task.reduction, ofFiles_sample]
    decide +kernel
  obtain ⟨hok, hmatrix⟩ := hruns
  cases houtcome : reduction.outcome with
  | error cause =>
    rw [houtcome] at hok
    cases hok
  | ok report =>
    refine ⟨_, report, ⟨by decide, ⟨["r"], rfl, rfl, houtcome⟩, ?_⟩, hmatrix⟩
    intro file hfile
    cases List.mem_singleton.mp hfile
    exact ⟨["m"], namesFile_sample isName_matrix "r", rfl⟩

/-- Without the relations the sample task does not complete. -/
theorem not_completes_sample (output : Reduction.Output) (report : Report) :
    ¬ (sampleTask 50).Completes (.addressed .checked) (sampleSettings 50) (sampleTree "m") output report := by
  intro hcompletes
  obtain ⟨paths, hpaths, hends⟩ := hcompletes.reduces
  obtain rfl : ["r"] = paths := Except.ok.inj hpaths
  rw [Task.reduction] at hends
  have hnone := Reduction.not_fault_of_ends_run hends
  have hevents : .fault (.missing (some "r")) ∈ Stream.ofFiles (sampleTree "m") ["r"] 0 := by
    rw [ofFiles_sample_missing]
    exact List.mem_singleton_self _
  exact hnone _ hevents _ rfl

theorem sturdy_sample : (sampleTask 50).Sturdy (.addressed .checked) (sampleSettings 50) (sampleTree "m") where
  holds := by decide
  reduces := by
    rintro paths ⟨⟩
    refine ⟨by decide, fun _ => by decide, fun _ => by decide, fun _ reading => ?_⟩
    show (Incidence.allIdeals (Event.texts (Stream.ofFiles (sampleTree "m") ["r"] reading))).card ≤ _
    rw [ofFiles_sample_missing]
    exact Nat.zero_le _

theorem removable_sample (name : String) : (sampleTree name).Removable "m" := by
  intro place hplace
  cases (isName_matrix.resolve_eq _).symm.trans hplace
  exact ⟨by decide, List.not_mem_nil⟩

theorem not_namesDevice_sample (name : String) : ¬ (sampleTree name).NamesDevice "m" := by
  rintro ⟨place, hplace, hdevice⟩
  exact Bool.false_ne_true ((removable_sample name place hplace).1.symm.trans hdevice)

end SieveFilter.CommandLine
