import SieveFilter.Proofs.CommandLine.Outputs
import SieveFilter.Proofs.Reduction.Reading

/-!
# Tasks that complete

A task completes when the files that it writes can be created, the reduction of the relations in the files as
they were before the task succeeds, and the files have room for what is written.  Each of them then holds all
of what was written to it.
-/

namespace SieveFilter.CommandLine.Task

open FileTree (Agree)

variable {task : Task} {machine : Machine} {build : Build} {settings : Settings} {tree after : FileTree}
  {output : Reduction.Output} {report : Report}

/-- The reduction of the relations in files. -/
def reduction (task : Task) (build : Build) (settings : Settings) (tree : FileTree) (paths : List String) :
    Run Reduction.Output Report :=
  let fresh := Reduction.new build settings settings.costPolicy.cost
  Reduction.run ⟨fresh, .empty none, task.map.map fun _ => .empty none⟩ (Stream.ofFiles tree paths)

/-- The text of a report. -/
def reportText (report : Report) : ByteArray :=
  report.toJson.pretty.toUTF8

/-- The paths of the files that a task writes, with what is written to them. -/
def contents (task : Task) (output : Reduction.Output) (report : Report) :
    List (String × ByteArray) :=
  (task.matrix, output.matrix.written) ::
    ((task.map.bind fun path => output.map.map fun sink => (path, sink.written)).toList ++
      (task.report.map fun path => (path, reportText report)).toList)

/-- A task completes on a tree: the machine has storage for its table, its reduction succeeds, and its files
take what is written to them. -/
structure Completes (task : Task) (machine : Machine) (settings : Settings) (tree : FileTree)
    (output : Reduction.Output) (report : Report) : Prop where
  holds : machine.holds settings.rows settings.rosterCapacity = true
  reduces : ∃ paths, task.paths tree = .ok paths ∧
    (task.reduction machine.build settings tree paths).Ends output report
  takes : ∀ file ∈ task.contents output report, tree.Takes file.1 file.2

/-- The files that a task writes are different ones, none of them is a relation file, and none is a folder. -/
structure Separate (task : Task) (tree : FileTree) : Prop where
  apart : task.outputs.Pairwise fun first second =>
    ∀ place, tree.resolve first = .ok place → tree.resolve second ≠ .ok place
  inputs : ∀ paths, task.paths tree = .ok paths →
    ∀ input ∈ paths, ∀ path ∈ task.outputs, ∀ place,
      tree.resolve input = .ok place → tree.resolve path ≠ .ok place
  files : ∀ path ∈ task.outputs, ∀ place, tree.resolve path = .ok place →
    tree.isFolder place = false

/-! ## Reading the relations -/

theorem Separate.avoids (h : task.Separate tree) {paths : List String}
    (hpaths : task.paths tree = .ok paths) :
    ∀ input ∈ paths, tree.Avoids input (task.places tree) := by
  intro input hinput place hresolve hmem
  obtain ⟨path, hpath, heq⟩ := List.mem_filterMap.mp hmem
  refine h.inputs paths hpaths input hinput path hpath place hresolve ?_
  cases hpath : tree.resolve path with
  | error cause =>
    rw [hpath] at heq
    cases heq
  | ok other =>
    rw [hpath] at heq
    cases heq
    rfl

/-- Changes apart from the relation files do not matter for the lines that are read. -/
theorem texts_ofFiles_congr {places : List Parts} (h : Agree places tree after) {paths : List String}
    (havoids : ∀ input ∈ paths, tree.Avoids input places) (reading : ℕ) :
    Event.texts (Stream.ofFiles after paths reading) = Event.texts (Stream.ofFiles tree paths reading) := by
  simp only [Stream.ofFiles, Event.texts, List.filterMap_flatMap]
  refine List.flatMap_congr fun input hinput => ?_
  cases hresolve : tree.resolve input with
  | ok place =>
    rw [Stream.fileEvents, Stream.fileEvents,
      h.open?_eq hresolve (havoids input hinput place hresolve)]
  | error cause =>
    -- a path that leads nowhere is a fault in both trees
    cases hafter : after.resolve input with
    | ok place => cases hresolve.symm.trans (h.resolve_eq_ok.mp hafter)
    | error cause' =>
      rw [Stream.fileEvents, Stream.fileEvents, FileTree.open?_of_error hafter,
        FileTree.open?_of_error hresolve]
      rfl

/-- Changes apart from the relation files do not matter for a reduction that succeeds. -/
theorem ends_reduction_congr {places : List Parts} (h : Agree places tree after)
    {paths : List String} (havoids : ∀ input ∈ paths, tree.Avoids input places) :
    (task.reduction build settings after paths).Ends output report ↔
      (task.reduction build settings tree paths).Ends output report := by
  by_cases hall : ∀ input ∈ paths, ∃ place, tree.resolve input = .ok place
  · have hsource : Stream.ofFiles after paths = Stream.ofFiles tree paths := by
      funext reading
      refine List.flatMap_congr fun input hinput => ?_
      obtain ⟨place, hresolve⟩ := hall input hinput
      rw [Stream.fileEvents, Stream.fileEvents,
        h.open?_eq hresolve (havoids input hinput place hresolve)]
    rw [reduction, reduction, hsource]
  · -- a path that leads nowhere is a fault in both sources
    push Not at hall
    obtain ⟨input, hinput, hnowhere⟩ := hall
    have hfails (other : FileTree) (hother : ∀ place, other.resolve input ≠ .ok place) :
        ¬ (task.reduction build settings other paths).Ends output report := by
      intro hends
      rw [reduction] at hends
      have hnone := Reduction.not_fault_of_ends_run hends
      cases hresolve : other.resolve input with
      | ok place => exact hother place hresolve
      | error cause =>
        have hevent (reading : ℕ) :
            .fault (cause.onPath input) ∈ Stream.ofFiles other paths reading := by
          refine List.mem_flatMap.mpr ⟨input, hinput, ?_⟩
          rw [Stream.fileEvents, FileTree.open?_of_error hresolve]
          exact List.mem_singleton_self _
        exact hnone _ (hevent _) _ rfl
    have hafter : ∀ place, after.resolve input ≠ .ok place :=
      fun place hresolve => hnowhere place (h.resolve_eq_ok.mp hresolve)
    exact iff_of_false (hfails after hafter) (hfails tree hnowhere)

/-! ## The parts of a task -/

/-- The files have room for what is written to them. -/
def Fits (matrix : Parts) (map : Option Parts) (output : Reduction.Output) : Prop :=
  FileTree.hasRoom matrix output.matrix.written = true ∧
    ∀ place ∈ map, ∀ sink ∈ output.map, FileTree.hasRoom place sink.written = true

theorem ends_checkOutput {matrix : Parts} {map : Option Parts} {other : Reduction.Output}
    {value : Unit} :
    (checkOutput matrix map output).Ends other value ↔ Fits matrix map output ∧ output = other := by
  have hcheck (fits : Bool) :
      (if fits then Run.done output () else .fail output (.fault .noSpace)).Ends other value ↔
        fits = true ∧ output = other := by
    cases fits with
    | true => simp
    | false => simp
  unfold checkOutput
  refine (hcheck _).trans (and_congr_left fun _ => ?_)
  rw [Bool.and_eq_true]
  refine and_congr_right fun _ => ?_
  cases map with
  | none => simp
  | some place =>
    cases output.map with
    | none => simp
    | some sink => simp

/-- A reduction into created files ends when the reduction does and the files have room. -/
theorem ends_reduce {paths : List String} {matrix : Parts} {map : Option Parts}
    (hmap : map.isSome = task.map.isSome) :
    (reduce machine settings paths tree matrix map).Ends after report ↔
      machine.holds settings.rows settings.rosterCapacity = true ∧
        ∃ output, (task.reduction machine.build settings tree paths).Ends output report ∧
          Fits matrix map output ∧ store tree matrix map output = after := by
  have hsinks : (map.map fun _ => Sink.empty none) = task.map.map fun _ => Sink.empty none := by
    cases map with
    | none =>
      cases hwanted : task.map with
      | none => rfl
      | some path => simp [hwanted] at hmap
    | some place =>
      cases hwanted : task.map with
      | none => simp [hwanted] at hmap
      | some path => rfl
  simp only [reduce, Run.ends_next, Run.ends_within, Reduction.ends_start, ends_checkOutput, Run.ends_done,
    hsinks, reduction]
  constructor
  · rintro ⟨_, _, ⟨_, ⟨hholds, rfl⟩, rfl⟩, _, ⟨output, _, hends, _, _, ⟨hfits, rfl⟩, rfl, rfl⟩, hstore⟩
    exact ⟨hholds, output, hends, hfits, hstore⟩
  · rintro ⟨hholds, output, hends, hfits, hstore⟩
    exact ⟨tree, _, ⟨(), ⟨hholds, rfl⟩, rfl⟩, output,
      ⟨output, report, hends, output, (), ⟨hfits, rfl⟩, rfl, rfl⟩, hstore⟩

/-- The tree with a report in its file. -/
def reported (tree : FileTree) (place : Option Parts) (report : Report) : FileTree :=
  place.elim tree fun place => (tree.put place .empty).put place (reportText report)

theorem ends_storeReport {written : Report} :
    (task.storeReport tree written).Ends after report ↔
      written = report ∧ ∃ place,
        Option.Rel (fun path place => tree.NamesFile path place ∧
          FileTree.hasRoom place (reportText report) = true) task.report place ∧
        reported tree place report = after := by
  rw [storeReport]
  cases task.report with
  | none =>
    rw [Run.ends_done]
    constructor
    · rintro ⟨rfl, rfl⟩
      exact ⟨rfl, none, .none, rfl⟩
    · rintro ⟨rfl, place, hplace, rfl⟩
      cases hplace with
      | none => exact ⟨rfl, rfl⟩
  | some path =>
    simp only [writeFile, Run.ends_next, ends_createFile, ends_checkRoom, Run.ends_done]
    constructor
    · rintro ⟨_, _, ⟨_, place, ⟨hnames, rfl⟩, hroom, rfl⟩, rfl, rfl⟩
      exact ⟨rfl, some place, .some ⟨hnames, hroom⟩, rfl⟩
    · rintro ⟨rfl, place, hplace, rfl⟩
      cases hplace with
      | some hnames => exact ⟨_, (), ⟨_, _, ⟨hnames.1, rfl⟩, hnames.2, rfl⟩, rfl, rfl⟩

/-! ## What the files hold -/

theorem store_of_none {matrix : Parts} {map : Option Parts} (h : map = none ∨ output.map = none) :
    store tree matrix map output = tree.overwrite matrix 0 output.matrix.written := by
  unfold store
  cases map with
  | none => rfl
  | some place =>
    rw [h.resolve_left (Option.some_ne_none place)]

/-- Matrix and map, when they are different files, are written one after the other. -/
theorem store_of_some {matrix place : Parts} {sink : Sink} (hne : place ≠ matrix)
    (hsink : output.map = some sink) :
    store tree matrix (some place) output =
      (tree.overwrite matrix 0 output.matrix.written).overwrite place 0 sink.written := by
  unfold store
  rw [hsink]
  exact if_neg hne

theorem node_reported_of_ne {place : Option Parts} {parts : Parts}
    (hsits : ∀ last ∈ place, tree.Sits last) (hne : ∀ last ∈ place, parts ≠ last) :
    (reported tree place report).node parts = tree.node parts := by
  cases place with
  | none => rfl
  | some place =>
    have hcreated := FileTree.agree_put (hsits place rfl) .empty
    have hwritten := FileTree.agree_put (hcreated.sits (hsits place rfl)) (reportText report)
    exact (hwritten.node_of_ne (hne place rfl)).trans (hcreated.node_of_ne (hne place rfl))

/-- The file for the report holds the report. -/
theorem node_reported_self {path : String} {place : Parts} (hnames : tree.NamesFile path place)
    (hdevice : FileTree.isDevice place = false) (report : Report) :
    (reported tree (some place) report).node place = .file (reportText report) := by
  have hcreated := (FileTree.agree_put hnames.sits .empty).namesFile_iff.mpr hnames
  exact FileTree.node_put_self hcreated.sits hcreated.isFolder_eq hdevice

theorem isSome_eq_of_rel {α β : Type} {relation : α → β → Prop} {first : Option α} {second : Option β}
    (h : Option.Rel relation first second) : second.isSome = first.isSome := by
  cases h with
  | none => rfl
  | some _ => rfl

section Stored

variable {matrix : Parts} {map : Option Parts}

theorem node_opened_matrix (hmatrix : tree.NamesFile task.matrix matrix)
    (hmap : Option.Rel tree.NamesFile task.map map) (hne : ∀ place ∈ map, place ≠ matrix)
    (hdevice : FileTree.isDevice matrix = false) :
    (opened tree matrix map).node matrix = .file .empty := by
  have hcreated : (tree.put matrix .empty).node matrix = .file .empty :=
    FileTree.node_put_self hmatrix.sits hmatrix.isFolder_eq hdevice
  have hagree := FileTree.agree_put hmatrix.sits .empty
  cases map with
  | none => exact hcreated
  | some place =>
    have hsits := hagree.sits (mem_places_of_rel hmap place rfl).1
    rw [← hcreated]
    exact (FileTree.agree_put hsits .empty).node_of_ne (hne place rfl).symm

theorem node_opened_map (hmatrix : tree.NamesFile task.matrix matrix) {path : String} {place : Parts}
    (hplace : tree.NamesFile path place) (hdevice : FileTree.isDevice place = false) :
    (opened tree matrix (some place)).node place = .file .empty := by
  have hcreated := (FileTree.agree_put hmatrix.sits .empty).namesFile_iff.mpr hplace
  exact FileTree.node_put_self hcreated.sits hcreated.isFolder_eq hdevice

/-- The file for the matrix holds the matrix. -/
theorem node_stored_matrix (hmatrix : tree.NamesFile task.matrix matrix)
    (hmap : Option.Rel tree.NamesFile task.map map) (hne : ∀ place ∈ map, place ≠ matrix)
    (hdevice : FileTree.isDevice matrix = false) (output : Reduction.Output) :
    (store (opened tree matrix map) matrix map output).node matrix = .file output.matrix.written := by
  have hopened := agree_opened hmatrix hmap
  have hsits := hopened.sits hmatrix.sits
  have hrows := FileTree.node_overwrite_self hsits hdevice
    (node_opened_matrix hmatrix hmap hne hdevice) output.matrix.written
  cases map with
  | none =>
    rw [store_of_none (.inl rfl)]
    exact hrows
  | some place =>
    cases hsink : output.map with
    | none =>
      rw [store_of_none (.inr hsink)]
      exact hrows
    | some sink =>
      have hagree := FileTree.agree_overwrite hsits 0 output.matrix.written
      have hplace := hagree.sits (hopened.sits (mem_places_of_rel hmap place rfl).1)
      rw [store_of_some (hne place rfl) hsink, ← hrows]
      exact (FileTree.agree_overwrite hplace 0 sink.written).node_of_ne (hne place rfl).symm

/-- The file for the map holds the map. -/
theorem node_stored_map (hmatrix : tree.NamesFile task.matrix matrix)
    (hmap : Option.Rel tree.NamesFile task.map map) (hne : ∀ place ∈ map, place ≠ matrix)
    {path : String} {place : Parts} (hin : place ∈ map) (hplace : tree.NamesFile path place)
    (hdevice : FileTree.isDevice place = false) {sink : Sink} (hsink : sink ∈ output.map) :
    (store (opened tree matrix map) matrix map output).node place = .file sink.written := by
  have hopened := agree_opened hmatrix hmap
  have hagree := FileTree.agree_overwrite (hopened.sits hmatrix.sits) 0 output.matrix.written
  cases hin
  have hempty := hagree.node_of_ne (hne place rfl)
  rw [node_opened_map hmatrix hplace hdevice] at hempty
  rw [store_of_some (hne place rfl) hsink]
  exact FileTree.node_overwrite_self (hagree.sits (hopened.sits hplace.sits)) hdevice hempty sink.written

end Stored

/-- A task ends when its files can be created, its reduction ends, and its files take what is written. -/
theorem ends_execute :
    (task.execute machine settings tree).Ends after report ↔
      ∃ paths matrix map place output, task.paths tree = .ok paths ∧
        tree.NamesFile task.matrix matrix ∧ Option.Rel tree.NamesFile task.map map ∧
        machine.holds settings.rows settings.rosterCapacity = true ∧
        (task.reduction machine.build settings (opened tree matrix map) paths).Ends output report ∧
        Fits matrix map output ∧
        Option.Rel (fun path place => tree.NamesFile path place ∧
          FileTree.hasRoom place (reportText report) = true) task.report place ∧
        reported (store (opened tree matrix map) matrix map output) place report = after := by
  rw [execute]
  cases task.paths tree with
  | error cause => simp
  | ok paths =>
    simp only [Run.ends_next]
    constructor
    · rintro ⟨_, matrix, hcreated, _, map, hopened, _, written, hreduce, hreport⟩
      obtain ⟨hmatrix, rfl⟩ := ends_createFile.mp hcreated
      obtain ⟨hmap, rfl⟩ := (ends_open hmatrix).mp hopened
      obtain ⟨hholds, output, hends, hfits, rfl⟩ := (ends_reduce (isSome_eq_of_rel hmap)).mp hreduce
      obtain ⟨rfl, place, hplace, hafter⟩ := ends_storeReport.mp hreport
      rw [namesFile_stored hmatrix hmap output] at hplace
      exact ⟨paths, matrix, map, place, output, rfl, hmatrix, hmap, hholds, hends, hfits, hplace,
        hafter⟩
    · rintro ⟨_, matrix, map, place, output, ⟨⟩, hmatrix, hmap, hholds, hends, hfits, hplace, hafter⟩
      rw [← namesFile_stored hmatrix hmap output] at hplace
      exact ⟨_, matrix, ends_createFile.mpr ⟨hmatrix, rfl⟩, _, map, (ends_open hmatrix).mpr ⟨hmap, rfl⟩,
        _, report, (ends_reduce (isSome_eq_of_rel hmap)).mpr ⟨hholds, output, hends, hfits, rfl⟩,
        ends_storeReport.mpr ⟨rfl, place, hplace, hafter⟩⟩

/-! ## Completion -/

theorem forall_contents {P : String → ByteArray → Prop} :
    (∀ file ∈ task.contents output report, P file.1 file.2) ↔
      P task.matrix output.matrix.written ∧
        (∀ path ∈ task.map, ∀ sink ∈ output.map, P path sink.written) ∧
        ∀ path ∈ task.report, P path (reportText report) := by
  rw [contents, List.forall_mem_cons, List.forall_mem_append]
  refine and_congr_right fun _ => and_congr ?_ ?_
  · cases task.map with
    | none => simp
    | some path =>
      cases output.map with
      | none => simp
      | some sink => simp
  · cases task.report with
    | none => simp
    | some path => simp

theorem rel_imp {α β : Type} {relation relation' : α → β → Prop} {first : Option α} {second : Option β}
    (h : Option.Rel relation first second) (himp : ∀ a b, relation a b → relation' a b) :
    Option.Rel relation' first second := by
  cases h with
  | none => exact .none
  | some hrel => exact .some (himp _ _ hrel)

theorem exists_rel {α β : Type} {relation : α → β → Prop} {first : Option α}
    (h : ∀ a ∈ first, ∃ b, relation a b) : ∃ second, Option.Rel relation first second := by
  cases first with
  | none => exact ⟨none, .none⟩
  | some a =>
    obtain ⟨b, hb⟩ := h a rfl
    exact ⟨some b, .some hb⟩

theorem exists_of_rel {α β : Type} {relation : α → β → Prop} {first : Option α} {second : Option β}
    (h : Option.Rel relation first second) {a : α} (ha : a ∈ first) : ∃ b ∈ second, relation a b := by
  cases h with
  | none => cases ha
  | some hrel =>
    cases ha
    exact ⟨_, rfl, hrel⟩

theorem mem_map_of_rel {α β : Type} {relation : α → β → Prop} {first : Option α} {second : Option β}
    (h : Option.Rel relation first second) {b : β} (hb : b ∈ second) : ∃ a ∈ first, relation a b := by
  cases h with
  | none => cases hb
  | some hrel =>
    cases hb
    exact ⟨_, rfl, hrel⟩

/-- The file that a path names before a task holds bytes after it, unless it is a device. -/
def Written (tree after : FileTree) (path : String) (bytes : ByteArray) : Prop :=
  ∀ place, tree.NamesFile path place → FileTree.isDevice place = false →
    after.node place = .file bytes

/-- The files for matrix and map are different ones. -/
theorem Separate.map_ne (h : task.Separate tree) {matrix : Parts} {map : Option Parts}
    (hmatrix : tree.NamesFile task.matrix matrix) (hmap : Option.Rel tree.NamesFile task.map map) :
    ∀ other ∈ map, other ≠ matrix := by
  rintro other hin rfl
  have hapart := h.apart
  rw [outputs, List.pairwise_cons] at hapart
  obtain ⟨path, hpath, hnames⟩ := mem_map_of_rel hmap hin
  exact hapart.1 path (List.mem_append_left _ (Option.mem_toList.mpr hpath)) other hmatrix.resolve_eq
    hnames.resolve_eq

/-- The file for the report is none of those for matrix and map. -/
theorem Separate.report_ne (h : task.Separate tree) {matrix : Parts} {map place : Option Parts}
    (hmatrix : tree.NamesFile task.matrix matrix) (hmap : Option.Rel tree.NamesFile task.map map)
    (hplace : Option.Rel (fun path place => tree.NamesFile path place ∧
      FileTree.hasRoom place (reportText report) = true) task.report place) :
    ∀ last ∈ place, last ≠ matrix ∧ ∀ other ∈ map, last ≠ other := by
  have hapart := h.apart
  rw [outputs, List.pairwise_cons, List.pairwise_append] at hapart
  obtain ⟨hfirst, -, -, hcross⟩ := hapart
  simp only [List.mem_append, Option.mem_toList] at hfirst hcross
  intro last hlast
  obtain ⟨path, hpath, hnames, -⟩ := mem_map_of_rel hplace hlast
  refine ⟨?_, ?_⟩
  · rintro rfl
    exact hfirst path (.inr hpath) last hmatrix.resolve_eq hnames.resolve_eq
  · rintro other hin rfl
    obtain ⟨mapPath, hmapPath, hmapNames⟩ := mem_map_of_rel hmap hin
    exact hcross mapPath hmapPath path hpath last hmapNames.resolve_eq hnames.resolve_eq

/-- A task that ends has completed, and its files hold what was written to them. -/
theorem Separate.of_ends (h : task.Separate tree)
    (hends : (task.execute machine settings tree).Ends after report) :
    ∃ output, task.Completes machine settings tree output report ∧
      ∀ file ∈ task.contents output report, Written tree after file.1 file.2 := by
  obtain ⟨paths, matrix, map, place, output, hpaths, hmatrix, hmap, hholds, hreduction, hfits, hplace,
    rfl⟩ := ends_execute.mp hends
  rw [ends_reduction_congr (agree_opened hmatrix hmap) (h.avoids hpaths)] at hreduction
  refine ⟨output, ⟨hholds, ⟨paths, hpaths, hreduction⟩, ?_⟩, ?_⟩
  · refine forall_contents.mpr ⟨⟨matrix, hmatrix, hfits.1⟩, ?_, ?_⟩
    · intro path hpath sink hsink
      obtain ⟨place, hin, hnames⟩ := exists_of_rel hmap hpath
      exact ⟨place, hnames, hfits.2 place hin sink hsink⟩
    · intro path hpath
      obtain ⟨place, -, htakes⟩ := exists_of_rel hplace hpath
      exact ⟨place, htakes⟩
  · have hneMap := h.map_ne hmatrix hmap
    have hneReport := h.report_ne hmatrix hmap hplace
    have hstored := agree_stored hmatrix hmap output
    have hsits (last : Parts) (hlast : last ∈ place) :
        (store (opened tree matrix map) matrix map output).Sits last := by
      obtain ⟨path, -, hnames, -⟩ := mem_map_of_rel hplace hlast
      exact hstored.sits hnames.sits
    refine forall_contents.mpr ⟨?_, ?_, ?_⟩
    · intro other hother hdevice
      cases hmatrix.resolve_eq.symm.trans hother.resolve_eq
      rw [node_reported_of_ne hsits fun last hlast => (hneReport last hlast).1.symm]
      exact node_stored_matrix hmatrix hmap hneMap hdevice output
    · intro path hpath sink hsink other hother hdevice
      obtain ⟨third, hin, hnames⟩ := exists_of_rel hmap hpath
      cases hnames.resolve_eq.symm.trans hother.resolve_eq
      rw [node_reported_of_ne hsits fun last hlast => ((hneReport last hlast).2 other hin).symm]
      exact node_stored_map hmatrix hmap hneMap hin hnames hdevice hsink
    · intro path hpath other hother hdevice
      obtain ⟨last, hlast, hnames, -⟩ := exists_of_rel hplace hpath
      cases hnames.resolve_eq.symm.trans hother.resolve_eq
      cases hlast
      exact node_reported_self (hstored.namesFile_iff.mpr hnames) hdevice report

/-- A task that completes ends. -/
theorem Separate.exists_ends (h : task.Separate tree)
    (hcompletes : task.Completes machine settings tree output report) :
    ∃ after, (task.execute machine settings tree).Ends after report := by
  obtain ⟨hholds, ⟨paths, hpaths, hreduction⟩, htakes⟩ := hcompletes
  obtain ⟨⟨matrix, hmatrix, hroom⟩, hmaps, hreports⟩ := forall_contents.mp htakes
  have hwanted : output.map.isSome = task.map.isSome := by
    rw [reduction] at hreduction
    rw [Reduction.isSome_map_of_ends_run hreduction]
    cases task.map <;> rfl
  have hmapTakes : ∀ path ∈ task.map, ∃ place, tree.NamesFile path place ∧
      ∀ sink ∈ output.map, FileTree.hasRoom place sink.written = true := by
    intro path hpath
    rw [Option.mem_def.mp hpath, Option.isSome_some, Option.isSome_iff_exists] at hwanted
    obtain ⟨sink, hsink⟩ := hwanted
    obtain ⟨place, hnames, hroom⟩ := hmaps path hpath sink hsink
    refine ⟨place, hnames, fun other hother => ?_⟩
    cases hsink.symm.trans hother
    exact hroom
  obtain ⟨map, hmap⟩ := exists_rel hmapTakes
  obtain ⟨place, hplace⟩ := exists_rel hreports
  have hnames : Option.Rel tree.NamesFile task.map map := rel_imp hmap fun _ _ hboth => hboth.1
  refine ⟨_, ends_execute.mpr ⟨paths, matrix, map, place, output, hpaths, hmatrix, hnames, hholds, ?_,
    ⟨hroom, ?_⟩, hplace, rfl⟩⟩
  · exact (ends_reduction_congr (agree_opened hmatrix hnames) (h.avoids hpaths)).mpr hreduction
  · intro place hin sink hsink
    obtain ⟨path, -, -, hroom⟩ := mem_map_of_rel hmap hin
    exact hroom sink hsink

end SieveFilter.CommandLine.Task
