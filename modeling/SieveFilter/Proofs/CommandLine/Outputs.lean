import SieveFilter.CommandLine
import SieveFilter.Proofs.FileTree.Places
import SieveFilter.Proofs.Support.Runs

/-!
# The files that a task writes

A task writes a matrix, and a column map and a report if they are wanted.  Wherever it stops, it has changed
nothing else.  It completes exactly when each of its parts does on the files as they were before it.
-/

namespace SieveFilter.CommandLine

open FileTree (Agree)

/-! ## Creating files -/

section Create

variable {tree after : FileTree} {path : String} {place : Parts}

theorem ends_createFile :
    (createFile tree path).Ends after place ↔
      tree.NamesFile path place ∧ after = tree.put place .empty := by
  rw [← FileTree.create_eq_ok, createFile]
  cases tree.create path with
  | error cause => simp
  | ok created =>
    obtain ⟨parts, created⟩ := created
    simp only [Run.ends_done, Except.ok.injEq, Prod.mk.injEq]
    exact ⟨fun h => ⟨h.2, h.1⟩, fun h => ⟨h.2, h.1⟩⟩

theorem ends_checkRoom {bytes : ByteArray} {value : Unit} :
    (checkRoom tree place bytes).Ends after value ↔
      FileTree.hasRoom place bytes = true ∧ tree = after := by
  rw [checkRoom]
  split
  next hroom => simp [hroom]
  next hroom => simp [hroom]

theorem state_checkRoom (tree : FileTree) (place : Parts) (bytes : ByteArray) :
    (checkRoom tree place bytes).state = tree := by
  rw [checkRoom]
  split <;> rfl

variable {places : List Parts} {before : FileTree}

/-- Creating a file changes nothing but the file, whether or not it succeeds. -/
theorem agree_createFile (h : Agree places before tree)
    (hin : ∀ place, before.resolve path = .ok place → place ∈ places) :
    Agree places before (createFile tree path).state := by
  cases hcreate : tree.create path with
  | error cause =>
    rw [createFile, hcreate]
    exact h
  | ok created =>
    obtain ⟨place, created⟩ := created
    obtain ⟨hnames, rfl⟩ := FileTree.create_eq_ok.mp hcreate
    rw [h.namesFile_iff] at hnames
    rw [createFile, hcreate]
    exact h.put hnames.sits (hin place hnames.resolve_eq) .empty

end Create

namespace Task

variable {task : Task} {settings : Settings} {tree after : FileTree}

/-! ## What a task changes -/

/-- The paths of the files that a task writes. -/
def outputs (task : Task) : List String :=
  task.matrix :: (task.map.toList ++ task.report.toList)

/-- The places that they lead to. -/
def places (task : Task) (tree : FileTree) : List Parts :=
  task.outputs.filterMap fun path => (tree.resolve path).toOption

theorem mem_places {path : String} {place : Parts} (hpath : path ∈ task.outputs)
    (hresolve : tree.resolve path = .ok place) : place ∈ task.places tree :=
  List.mem_filterMap.mpr ⟨path, hpath, by rw [hresolve]; rfl⟩

theorem matrix_mem_outputs : task.matrix ∈ task.outputs :=
  List.mem_cons_self

theorem map_mem_outputs {path : String} (hmap : task.map = some path) : path ∈ task.outputs := by
  simp [outputs, hmap]

theorem report_mem_outputs {path : String} (hreport : task.report = some path) :
    path ∈ task.outputs := by
  simp [outputs, hreport]

theorem ends_createMap {map : Option Parts} :
    (task.createMap tree).Ends after map ↔
      Option.Rel tree.NamesFile task.map map ∧ after = map.elim tree (tree.put · .empty) := by
  rw [createMap]
  cases task.map with
  | none =>
    cases map with
    | none => simp [eq_comm]
    | some place =>
      simp only [Run.ends_done, reduceCtorEq, and_false, false_iff]
      rintro ⟨hrel, -⟩
      cases hrel
  | some path =>
    simp only [Run.ends_after, Run.ends_next, ends_createFile, Run.ends_done]
    constructor
    · rintro ⟨_, place, ⟨hnames, rfl⟩, rfl, rfl⟩
      exact ⟨.some hnames, rfl⟩
    · rintro ⟨hrel, rfl⟩
      cases hrel with
      | some hnames => exact ⟨_, _, ⟨hnames, rfl⟩, rfl, rfl⟩

theorem agree_createMap (h : Agree (task.places tree) tree after) :
    Agree (task.places tree) tree (task.createMap after).state := by
  rw [createMap]
  cases hmap : task.map with
  | none => exact h
  | some path =>
    have hin : ∀ place, tree.resolve path = .ok place → place ∈ task.places tree :=
      fun place => mem_places (map_mem_outputs hmap)
    exact Run.next_keeps (Agree (task.places tree) tree) (agree_createFile h hin)
      fun _ _ hstate => hstate

theorem agree_store {places : List Parts} {before : FileTree} {matrix : Parts} {map : Option Parts}
    (h : Agree places before tree) (hmatrix : before.Sits matrix ∧ matrix ∈ places)
    (hmap : ∀ place ∈ map, before.Sits place ∧ place ∈ places) (output : Reduction.Output) :
    Agree places before (store tree matrix map output) := by
  have hrows := h.overwrite hmatrix.1 hmatrix.2 0 output.matrix.written
  unfold store
  split
  next _ _ place sink _ =>
    obtain ⟨hsits, hin⟩ := hmap place rfl
    split
    next => exact ((h.overwrite hsits hin _ _).overwrite hmatrix.1 hmatrix.2 _ _).overwrite hsits hin _ _
    next => exact hrows.overwrite hsits hin _ _
  next => exact hrows

/-- A reduction that does not start leaves the files as they are; wherever another one stops, its files hold
what it has written so far. -/
theorem state_reduce (machine : Machine) (settings : Settings) (paths : List String) (tree : FileTree)
    (matrix : Parts) (map : Option Parts) :
    (reduce machine settings paths tree matrix map).state = tree ∨
      ∃ output, (reduce machine settings paths tree matrix map).state = store tree matrix map output := by
  let Invariant (other : FileTree) : Prop :=
    other = tree ∨ ∃ output, other = store tree matrix map output
  have hstarted : Invariant ((Reduction.start machine settings settings.costPolicy.cost).within
      fun _ => tree).state := .inl rfl
  refine Run.next_leaves Invariant hstarted ?_
  intro middle fresh hends
  obtain ⟨_, -, rfl⟩ := Run.ends_within.mp hends
  exact .inr ⟨_, rfl⟩

theorem agree_storeReport (h : Agree (task.places tree) tree after) (report : Report) :
    Agree (task.places tree) tree (task.storeReport after report).state := by
  rw [storeReport]
  cases hreport : task.report with
  | none => exact h
  | some path =>
    have hin : ∀ place, tree.resolve path = .ok place → place ∈ task.places tree :=
      fun place => mem_places (report_mem_outputs hreport)
    refine Run.next_keeps (Agree (task.places tree) tree) ?_ fun _ _ hstate => hstate
    refine Run.next_leaves (Agree (task.places tree) tree) (agree_createFile h hin) ?_
    intro created place hends
    obtain ⟨hnames, rfl⟩ := ends_createFile.mp hends
    rw [h.namesFile_iff] at hnames
    rw [state_checkRoom]
    have hplace := hin place hnames.resolve_eq
    exact (h.put hnames.sits hplace .empty).put hnames.sits hplace _

/-- The tree with empty files for a matrix and a map. -/
def opened (tree : FileTree) (matrix : Parts) (map : Option Parts) : FileTree :=
  let created := tree.put matrix .empty
  map.elim created (created.put · .empty)

/-- The places of matrix and map are those that their paths lead to before anything is created. -/
theorem ends_open {matrix : Parts} {map : Option Parts} (hmatrix : tree.NamesFile task.matrix matrix) :
    (task.createMap (tree.put matrix .empty)).Ends after map ↔
      Option.Rel tree.NamesFile task.map map ∧ after = opened tree matrix map := by
  have hagree := FileTree.agree_put hmatrix.sits .empty
  have hnames : (tree.put matrix .empty).NamesFile = tree.NamesFile := by
    funext path place
    exact propext hagree.namesFile_iff
  rw [ends_createMap, hnames, opened]

theorem mem_places_of_rel {map : Option Parts} (hmap : Option.Rel tree.NamesFile task.map map) :
    ∀ place ∈ map, tree.Sits place ∧ place ∈ task.places tree := by
  generalize hpath : task.map = path at hmap
  cases hmap with
  | none => exact fun place hplace => absurd hplace (by simp)
  | some hnames =>
    rintro place ⟨⟩
    exact ⟨hnames.sits, mem_places (map_mem_outputs hpath) hnames.resolve_eq⟩

theorem agree_opened {matrix : Parts} {map : Option Parts}
    (hmatrix : tree.NamesFile task.matrix matrix) (hmap : Option.Rel tree.NamesFile task.map map) :
    Agree (task.places tree) tree (opened tree matrix map) := by
  have hcreated := (Agree.refl (task.places tree) tree).put hmatrix.sits
    (mem_places matrix_mem_outputs hmatrix.resolve_eq) .empty
  have hplace := mem_places_of_rel hmap
  cases map with
  | none => exact hcreated
  | some place => exact hcreated.put (hplace place rfl).1 (hplace place rfl).2 .empty

/-- The tree with what a reduction has written in files for a matrix and a map. -/
theorem agree_stored {matrix : Parts} {map : Option Parts}
    (hmatrix : tree.NamesFile task.matrix matrix) (hmap : Option.Rel tree.NamesFile task.map map)
    (output : Reduction.Output) :
    Agree (task.places tree) tree (store (opened tree matrix map) matrix map output) :=
  agree_store (agree_opened hmatrix hmap)
    ⟨hmatrix.sits, mem_places matrix_mem_outputs hmatrix.resolve_eq⟩ (mem_places_of_rel hmap) output

theorem namesFile_stored {matrix : Parts} {map : Option Parts}
    (hmatrix : tree.NamesFile task.matrix matrix) (hmap : Option.Rel tree.NamesFile task.map map)
    (output : Reduction.Output) :
    (store (opened tree matrix map) matrix map output).NamesFile = tree.NamesFile := by
  funext path place
  exact propext (agree_stored hmatrix hmap output).namesFile_iff

/-- Wherever a task stops, it has changed nothing but the files that it writes. -/
theorem agree_execute (task : Task) (machine : Machine) (settings : Settings) (tree : FileTree) :
    Agree (task.places tree) tree (task.execute machine settings tree).state := by
  have hrefl := Agree.refl (task.places tree) tree
  rw [execute]
  cases task.paths tree with
  | error cause => exact hrefl
  | ok paths =>
    have hin : ∀ place, tree.resolve task.matrix = .ok place → place ∈ task.places tree :=
      fun place => mem_places matrix_mem_outputs
    refine Run.next_leaves (Agree (task.places tree) tree) (agree_createFile hrefl hin) ?_
    intro created matrix hcreated
    obtain ⟨hmatrix, rfl⟩ := ends_createFile.mp hcreated
    have hplace := hin matrix hmatrix.resolve_eq
    refine Run.next_leaves (Agree (task.places tree) tree)
      (agree_createMap (hrefl.put hmatrix.sits hplace .empty)) ?_
    intro opened map hopened
    obtain ⟨hmap, rfl⟩ := (ends_open hmatrix).mp hopened
    refine Run.next_keeps (Agree (task.places tree) tree) ?_
      fun _ report hstate => agree_storeReport hstate report
    rcases state_reduce machine settings paths (Task.opened tree matrix map) matrix map with
      hstate | ⟨output, hstate⟩
    · rw [hstate]
      exact agree_opened hmatrix hmap
    · rw [hstate]
      exact agree_stored hmatrix hmap output

theorem agree_discard (h : Agree (task.places tree) tree after) :
    Agree (task.places tree) tree (task.discard after) := by
  have hmatrix := h.remove fun place => mem_places matrix_mem_outputs
  rw [discard]
  cases hmap : task.map with
  | none => exact hmatrix
  | some path => exact hmatrix.remove fun place => mem_places (map_mem_outputs hmap)

end Task

end SieveFilter.CommandLine
