import Mathlib.Data.List.Infix
import Mathlib.Data.Nat.Notation
import Mathlib.Data.String.Basic
import SieveFilter.FileTree

/-!
# Places in a file tree

A path leads to the same place as long as the folders stay the same.  Creating, writing and removing files
changes no folder, and changes what lies at one place only, so it disturbs no other file and no path.
-/

namespace SieveFilter.FileTree

variable {tree : FileTree}

/-! ## What lies at a place -/

theorem node_eq_folder_iff {parts : Parts} :
    tree.node parts = .folder ↔ tree.isFolder parts = true := by
  rw [node]
  split
  · simp [*]
  · split
    · simp [*]
    · split
      · simp [*]
      · simp [*]

/-- The parts before the last one of a place are folders. -/
def Sits (tree : FileTree) (place : Parts) : Prop :=
  ∀ parts, parts <+: place → parts ≠ place → tree.isFolder parts = true

theorem isFolder_nil (tree : FileTree) : tree.isFolder [] = true := by
  simp [isFolder, isOutermost]

/-- A proper beginning of a place is a beginning of its folder. -/
theorem prefix_dropLast_iff {parts place : Parts} (hne : place ≠ []) :
    parts <+: place.dropLast ↔ parts <+: place ∧ parts ≠ place := by
  have hplace := List.dropLast_append_getLast hne
  rw [← hplace, List.dropLast_concat, List.prefix_concat_iff]
  constructor
  · intro hbegins
    refine ⟨.inr hbegins, ?_⟩
    rintro rfl
    have hlength := hbegins.length_le
    rw [List.length_append, List.length_singleton] at hlength
    omega
  · rintro ⟨heq | hbegins, hne⟩
    · exact absurd heq hne
    · exact hbegins

/-! ## Where paths lead -/

theorem walk_cons_eq_ok {here place : Parts} {part : String} {rest : Parts} :
    tree.walk here (part :: rest) = .ok place ↔
      tree.isFolder here = true ∧ part.utf8ByteSize ≤ maxName ∧
        tree.walk (step here part) rest = .ok place := by
  rw [walk, ← node_eq_folder_iff]
  split
  next hnode => simp [hnode]
  next hnode => simp [hnode]
  next hnode =>
    split
    next hlong => simp [hnode, Nat.not_le.mpr hlong]
    next hshort => simp [hnode, Nat.not_lt.mp hshort]

theorem Sits.step {here : Parts} (h : tree.Sits here) (hfolder : tree.isFolder here = true)
    (part : String) : tree.Sits (step here part) := by
  have hback : tree.Sits here.dropLast := by
    intro parts hbegins hne
    by_cases hnil : here = []
    · rw [hnil] at hbegins hne
      exact absurd (List.prefix_nil.mp hbegins) hne
    · obtain ⟨hbegins, hne⟩ := (prefix_dropLast_iff hnil).mp hbegins
      exact h parts hbegins hne
  have hdown : tree.Sits (here ++ [part]) := by
    intro parts hbegins hne
    rcases List.prefix_concat_iff.mp hbegins with heq | hbegins
    · exact absurd heq hne
    · by_cases heq : parts = here
      · exact heq ▸ hfolder
      · exact h parts hbegins heq
  rw [FileTree.step]
  split
  · exact h
  · split
    · exact hdown
    · split
      · exact hdown
      · exact hdown
      · exact h
      · exact hback

theorem Sits.walk {here place : Parts} (h : tree.Sits here) {rest : Parts}
    (hwalk : tree.walk here rest = .ok place) : tree.Sits place := by
  induction rest generalizing here with
  | nil =>
    cases hwalk
    exact h
  | cons part rest ih =>
    obtain ⟨hfolder, -, hrest⟩ := walk_cons_eq_ok.mp hwalk
    exact ih (h.step hfolder part) hrest

/-- A path leads to a place whose parts before the last one are folders. -/
theorem sits_of_resolve {path : String} {place : Parts} (h : tree.resolve path = .ok place) :
    tree.Sits place := by
  have hstart : tree.Sits (start path) := by
    intro parts hbegins hne
    rw [start] at hbegins hne
    split at hbegins
    next habsolute =>
      rw [if_pos habsolute] at hne
      rcases List.prefix_concat_iff.mp (List.nil_append ["/"] ▸ hbegins) with heq | hbegins
      · exact absurd heq hne
      · rw [List.prefix_nil.mp hbegins]
        exact isFolder_nil tree
    next habsolute =>
      rw [if_neg habsolute] at hne
      exact absurd (List.prefix_nil.mp hbegins) hne
  rw [resolve] at h
  split at h
  · cases h
  · split at h
    · cases h
    · split at h
      · cases h
      · exact hstart.walk h

/-! ## Names in the working folder -/

/-- A path that is a name and nothing else. -/
structure IsName (path : String) : Prop where
  nonempty : path ≠ ""
  ne_dot : path ≠ "."
  ne_dots : path ≠ ".."
  plain : '/' ∉ path.toList
  no_zero : '\x00' ∉ path.toList
  short : path.utf8ByteSize ≤ maxName

/-- The walk of a split, with `rest` to come, finds no place to split at where there is no separator. -/
theorem splitOnAux_of_not_mem (before rest : List Char) (hplain : '/' ∉ rest) :
    String.splitOnAux (String.ofList (before ++ rest)) "/" 0 ⟨String.utf8Len before⟩ 0 [] =
      [String.ofList (before ++ rest)] := by
  induction rest generalizing before with
  | nil =>
    have hextract := String.extract_of_valid [] before []
    rw [String.splitOnAux]
    simpa using hextract
  | cons c rest ih =>
    obtain ⟨hc, hrest⟩ : c ≠ '/' ∧ '/' ∉ rest := by simpa [eq_comm] using hplain
    have hget := String.get_of_valid before (c :: rest)
    have hnext := String.next_of_valid before c rest
    have hend := mt (String.atEnd_of_valid before (c :: rest)).mp (List.cons_ne_nil c rest)
    have hseparator : String.Pos.Raw.get "/" 0 = '/' := rfl
    have hafter : (before ++ [c]) ++ rest = before ++ c :: rest := by simp
    have hlength : String.utf8Len (before ++ [c]) = String.utf8Len before + c.utf8Size := by simp
    have hwalk := ih (before ++ [c]) hrest
    rw [hafter, hlength] at hwalk
    rw [String.splitOnAux, if_neg hend, hget, hseparator, if_neg (by simpa using hc)]
    exact hnext ▸ hwalk

theorem splitOn_of_not_mem {path : String} (hplain : '/' ∉ path.toList) :
    path.splitOn "/" = [path] := by
  have hwalk := splitOnAux_of_not_mem [] path.toList hplain
  rw [List.nil_append, String.ofList_toList] at hwalk
  exact hwalk

theorem IsName.split_eq {path : String} (h : IsName path) : split path = [path] := by
  rw [split, splitOn_of_not_mem h.plain]
  simpa using h.nonempty

/-- A name leads to the place in the working folder that has it. -/
theorem IsName.resolve_eq {path : String} (h : IsName path) (tree : FileTree) :
    tree.resolve path = .ok [path] := by
  have hstart : start path = [] := by
    rw [start, isAbsolute, if_neg]
    intro habsolute
    have hbegins := String.startsWith_string_iff.mp habsolute
    exact h.plain (hbegins.subset (by simp))
  have hstep : step [] path = [path] := by
    simp [step, h.ne_dot, h.ne_dots]
  have hshort : ¬ maxPath < path.utf8ByteSize := by
    have hle : maxName ≤ maxPath := by decide
    exact Nat.not_lt.mpr (h.short.trans hle)
  have hwalk : tree.walk [] [path] = .ok [path] :=
    walk_cons_eq_ok.mpr ⟨isFolder_nil tree, h.short, by rw [hstep, walk]⟩
  rw [resolve, if_neg h.nonempty, if_neg (by simpa using h.no_zero), if_neg hshort, hstart, h.split_eq, hwalk]

theorem IsName.endsAsFolder_eq {path : String} (h : IsName path) : endsAsFolder path = false := by
  rw [endsAsFolder, splitOn_of_not_mem h.plain]
  simp [h.nonempty, h.ne_dot, h.ne_dots]

/-! ## Trees that agree apart from some places -/

/-- The trees have the same folders, the files of the same places cannot be removed, and the same lies at every
place apart from the given ones. -/
structure Agree (places : List Parts) (before after : FileTree) : Prop where
  isFolder_eq : ∀ parts, after.isFolder parts = before.isFolder parts
  fixed_eq : after.fixed = before.fixed
  node_eq : ∀ parts, parts ∉ places → after.node parts = before.node parts

namespace Agree

variable {places : List Parts} {before middle after : FileTree}

theorem refl (places : List Parts) (tree : FileTree) : Agree places tree tree :=
  ⟨fun _ => rfl, rfl, fun _ _ => rfl⟩

theorem trans (h : Agree places before middle) (h' : Agree places middle after) :
    Agree places before after :=
  ⟨fun parts => (h'.isFolder_eq parts).trans (h.isFolder_eq parts), h'.fixed_eq.trans h.fixed_eq,
    fun parts hout => (h'.node_eq parts hout).trans (h.node_eq parts hout)⟩

theorem of_mem {place : Parts} (h : Agree [place] before after) (hin : place ∈ places) :
    Agree places before after := by
  refine ⟨h.isFolder_eq, h.fixed_eq, fun parts hout => h.node_eq parts fun hsame => ?_⟩
  exact hout (List.mem_singleton.mp hsame ▸ hin)

theorem sits (h : Agree places before after) {place : Parts} (hsits : before.Sits place) :
    after.Sits place := fun parts hbegins hne =>
  (h.isFolder_eq parts).trans (hsits parts hbegins hne)

theorem walk_eq_ok (h : Agree places before after) {here place : Parts} {rest : Parts} :
    after.walk here rest = .ok place ↔ before.walk here rest = .ok place := by
  induction rest generalizing here with
  | nil => exact Iff.rfl
  | cons part rest ih => rw [walk_cons_eq_ok, walk_cons_eq_ok, h.isFolder_eq, ih]

/-- Paths lead to the same places. -/
theorem resolve_eq_ok (h : Agree places before after) {path : String} {place : Parts} :
    after.resolve path = .ok place ↔ before.resolve path = .ok place := by
  rw [resolve, resolve]
  split
  · exact Iff.rfl
  · split
    · exact Iff.rfl
    · split
      · exact Iff.rfl
      · exact h.walk_eq_ok

end Agree

/-! ## Putting and removing files -/

theorem lookup_filter_ne (files : List (Parts × ByteArray)) (place parts : Parts) :
    (files.filter (·.1 != place)).lookup parts =
      if parts = place then none else files.lookup parts := by
  induction files with
  | nil => simp
  | cons file rest ih =>
    obtain ⟨here, contents⟩ := file
    by_cases hhere : here = place
    · subst hhere
      rw [List.filter_cons_of_neg (by simp), ih]
      split
      next => rfl
      next hne => rw [List.lookup_cons, beq_false_of_ne hne]
    · rw [List.filter_cons_of_pos (by simpa using hhere), List.lookup_cons, List.lookup_cons, ih]
      by_cases heq : parts = here
      · simp only [heq, if_neg hhere, beq_self_eq_true]
      · simp only [beq_false_of_ne heq]

theorem isFolder_iff {parts : Parts} :
    tree.isFolder parts = true ↔
      isOutermost parts = true ∨ (∃ folder ∈ tree.folders, parts <+: folder) ∨
        ∃ file ∈ tree.files, parts <+: file.1 ∧ parts ≠ file.1 := by
  simp [isFolder, or_assoc]

theorem node_eq {parts : Parts} (hfolder : tree.isFolder parts = false) :
    tree.node parts =
      match tree.files.lookup parts with
      | some contents => .file contents
      | none => if isDevice parts then .file .empty else .missing := by
  rw [node, hfolder]
  rfl

/-- What lies at a place is told by the folders and by the file there. -/
theorem node_congr {after : FileTree} {parts : Parts}
    (hfolder : after.isFolder parts = tree.isFolder parts)
    (hfile : after.files.lookup parts = tree.files.lookup parts) :
    after.node parts = tree.node parts := by
  rw [node, node, hfolder, hfile]

section Change

variable {place : Parts} {contents : ByteArray} {path : String}

theorem isFolder_put (hsits : tree.Sits place) (parts : Parts) :
    (tree.put place contents).isFolder parts = tree.isFolder parts := by
  rw [put]
  split
  · rfl
  rw [Bool.eq_iff_iff, isFolder_iff]
  constructor
  · rintro (houter | hnamed | ⟨file, hfile, hbegins, hne⟩)
    · exact isFolder_iff.mpr (.inl houter)
    · exact isFolder_iff.mpr (.inr (.inl hnamed))
    · rcases List.mem_cons.mp hfile with rfl | hfile
      · exact hsits parts hbegins hne
      · exact isFolder_iff.mpr (.inr (.inr ⟨file, (List.mem_filter.mp hfile).1, hbegins, hne⟩))
  · intro hfolder
    rcases isFolder_iff.mp hfolder with houter | hnamed | ⟨file, hfile, hbegins, hne⟩
    · exact .inl houter
    · exact .inr (.inl hnamed)
    · refine .inr (.inr ?_)
      by_cases heq : file.1 = place
      · exact ⟨(place, contents), List.mem_cons_self, heq ▸ hbegins, heq ▸ hne⟩
      · exact ⟨file, List.mem_cons_of_mem _ (List.mem_filter.mpr ⟨hfile, by simpa using heq⟩),
          hbegins, hne⟩

theorem fixed_put (place : Parts) (contents : ByteArray) :
    (tree.put place contents).fixed = tree.fixed := by
  rw [put]
  split <;> rfl

/-- Putting a file changes what lies at its place only. -/
theorem agree_put (hsits : tree.Sits place) (contents : ByteArray) :
    Agree [place] tree (tree.put place contents) := by
  refine ⟨isFolder_put hsits, fixed_put place contents, fun parts hout => ?_⟩
  have hne : parts ≠ place := fun heq => hout (heq ▸ List.mem_singleton_self place)
  refine node_congr (isFolder_put hsits parts) ?_
  rw [put]
  split
  · rfl
  · simp only [List.lookup_cons, beq_false_of_ne hne, lookup_filter_ne, if_neg hne]

theorem node_put_self (hsits : tree.Sits place) (hfolder : tree.isFolder place = false)
    (hdevice : isDevice place = false) : (tree.put place contents).node place = .file contents := by
  rw [node_eq ((isFolder_put hsits place).trans hfolder), put, hdevice]
  simp

theorem agree_overwrite (hsits : tree.Sits place) (offset : ℕ) (bytes : ByteArray) :
    Agree [place] tree (tree.overwrite place offset bytes) := by
  rw [overwrite]
  split
  · exact agree_put hsits _
  · exact agree_put hsits _

theorem isFolder_of_node_eq_file (hnode : tree.node place = .file contents) :
    tree.isFolder place = false := by
  rw [← Bool.not_eq_true, ← node_eq_folder_iff, hnode]
  exact fun h => by cases h

/-- Writing over an empty file from its start puts the bytes there. -/
theorem overwrite_of_empty (hnode : tree.node place = .file .empty) (bytes : ByteArray) :
    tree.overwrite place 0 bytes = tree.put place bytes := by
  rw [node_eq (isFolder_of_node_eq_file hnode)] at hnode
  rw [overwrite]
  split
  next old hlookup =>
    rw [hlookup] at hnode
    cases hnode
    congr 1
    apply ByteArray.ext
    simp
  next => rfl

theorem node_overwrite_self (hsits : tree.Sits place) (hdevice : isDevice place = false)
    (hnode : tree.node place = .file .empty) (bytes : ByteArray) :
    (tree.overwrite place 0 bytes).node place = .file bytes := by
  rw [overwrite_of_empty hnode]
  exact node_put_self hsits (isFolder_of_node_eq_file hnode) hdevice

theorem isFolder_remove (hresolve : tree.resolve path = .ok place) (parts : Parts) :
    (tree.remove path).isFolder parts = tree.isFolder parts := by
  have hsits := sits_of_resolve hresolve
  rw [remove, hresolve]
  simp only
  split
  · rfl
  rw [Bool.eq_iff_iff, isFolder_iff]
  constructor
  · rintro (houter | ⟨folder, hfolder, hbegins⟩ | ⟨file, hfile, hwithin⟩)
    · exact isFolder_iff.mpr (.inl houter)
    · rcases List.mem_cons.mp hfolder with rfl | hfolder
      · by_cases hnil : place = []
        · rw [hnil] at hbegins
          rw [List.prefix_nil.mp hbegins]
          exact isFolder_nil tree
        · obtain ⟨hbegins, hne⟩ := (prefix_dropLast_iff hnil).mp hbegins
          exact hsits parts hbegins hne
      · exact isFolder_iff.mpr (.inr (.inl ⟨folder, hfolder, hbegins⟩))
    · exact isFolder_iff.mpr (.inr (.inr ⟨file, (List.mem_filter.mp hfile).1, hwithin⟩))
  · intro hfolder
    rcases isFolder_iff.mp hfolder with houter | ⟨folder, hnamed, hbegins⟩ | ⟨file, hfile, hbegins, hne⟩
    · exact .inl houter
    · exact .inr (.inl ⟨folder, List.mem_cons_of_mem _ hnamed, hbegins⟩)
    · by_cases heq : file.1 = place
      · rw [heq] at hbegins hne
        have hnil : place ≠ [] := by
          rintro rfl
          exact hne (List.prefix_nil.mp hbegins)
        exact .inr (.inl ⟨place.dropLast, List.mem_cons_self,
          (prefix_dropLast_iff hnil).mpr ⟨hbegins, hne⟩⟩)
      · exact .inr (.inr ⟨file, List.mem_filter.mpr ⟨hfile, by simpa using heq⟩, hbegins, hne⟩)

theorem fixed_remove (path : String) : (tree.remove path).fixed = tree.fixed := by
  rw [remove]
  split
  · rfl
  · split <;> rfl

/-- Removing a file changes what lies at its place only. -/
theorem agree_remove (hresolve : tree.resolve path = .ok place) :
    Agree [place] tree (tree.remove path) := by
  refine ⟨isFolder_remove hresolve, fixed_remove path, fun parts hout => ?_⟩
  have hne : parts ≠ place := fun heq => hout (heq ▸ List.mem_singleton_self place)
  refine node_congr (isFolder_remove hresolve parts) ?_
  rw [remove, hresolve]
  simp only
  split
  · rfl
  · rw [lookup_filter_ne, if_neg hne]

theorem node_remove (hresolve : tree.resolve path = .ok place) (hend : endsAsFolder path = false)
    (hfolder : tree.isFolder place = false) (hdevice : isDevice place = false)
    (hloose : place ∉ tree.fixed) : (tree.remove path).node place = .missing := by
  rw [node_eq ((isFolder_remove hresolve place).trans hfolder), remove, hresolve, hend]
  simp [lookup_filter_ne, hdevice, hloose]

end Change

/-! ## Opening files -/

/-- A path leads to a place where a file is or can be. -/
structure NamesFile (tree : FileTree) (path : String) (place : Parts) : Prop where
  resolve_eq : tree.resolve path = .ok place
  isFolder_eq : tree.isFolder place = false
  endsAsFolder_eq : endsAsFolder path = false

/-- What a path that leads to none of some places names is not affected by changes there. -/
def Avoids (tree : FileTree) (path : String) (places : List Parts) : Prop :=
  ∀ place, tree.resolve path = .ok place → place ∉ places

/-- The file that a path names can be created, and has room for bytes. -/
def Takes (tree : FileTree) (path : String) (bytes : ByteArray) : Prop :=
  ∃ place, tree.NamesFile path place ∧ hasRoom place bytes = true

variable {path : String} {place : Parts} {contents : ByteArray}

theorem NamesFile.sits (h : tree.NamesFile path place) : tree.Sits place :=
  sits_of_resolve h.resolve_eq

/-- A file is created at a place where one can be. -/
theorem create_eq_ok {after : FileTree} :
    tree.create path = .ok (place, after) ↔
      tree.NamesFile path place ∧ after = tree.put place .empty := by
  constructor
  · intro h
    cases hresolve : tree.resolve path with
    | error cause => simp [create, hresolve, bind, Except.bind] at h
    | ok parts =>
      simp only [create, hresolve, bind, Except.bind] at h
      split at h
      next => cases h
      next hnode =>
        split at h
        next => cases h
        next hend =>
          cases h
          refine ⟨⟨hresolve, ?_, by simpa using hend⟩, rfl⟩
          rw [← Bool.not_eq_true, ← node_eq_folder_iff]
          exact hnode
  · rintro ⟨⟨hresolve, hfolder, hend⟩, rfl⟩
    have hnode : tree.node place ≠ .folder := by
      rw [ne_eq, node_eq_folder_iff, hfolder]
      exact Bool.false_ne_true
    simp only [create, hresolve, bind, Except.bind, hend, Bool.false_eq_true, if_false]

theorem open?_of_resolve (hresolve : tree.resolve path = .ok place) :
    tree.open? path =
      match tree.node place with
      | .missing => .error (.missing none)
      | .folder => .ok (.error .folder)
      | .file contents =>
        if endsAsFolder path then .error (.notFolder none) else .ok (.ok contents) := by
  rw [open?, hresolve]
  rfl

theorem open?_of_error {cause : Fault} (hresolve : tree.resolve path = .error cause) :
    tree.open? path = .error cause := by
  rw [open?, hresolve]
  rfl

/-- A file in the working folder is opened by its name. -/
theorem IsName.open?_file (h : IsName path) (hnode : tree.node [path] = .file contents) :
    tree.open? path = .ok (.ok contents) := by
  rw [open?_of_resolve (h.resolve_eq tree), hnode, h.endsAsFolder_eq]
  rfl

/-- A name that nothing in the working folder has cannot be opened. -/
theorem IsName.open?_missing (h : IsName path) (hnode : tree.node [path] = .missing) :
    tree.open? path = .error (.missing none) := by
  rw [open?_of_resolve (h.resolve_eq tree), hnode]

/-- A path leads to something when it leads to a folder, or to a file and does not end as a folder does. -/
theorem contains_iff :
    tree.contains path = true ↔
      ∃ place, tree.resolve path = .ok place ∧
        (tree.node place = .folder ∨
          (∃ contents, tree.node place = .file contents) ∧ endsAsFolder path = false) := by
  rw [contains]
  cases hresolve : tree.resolve path with
  | error cause => simp [open?_of_error hresolve]
  | ok place =>
    rw [open?_of_resolve hresolve]
    cases hnode : tree.node place with
    | missing => simp [hnode]
    | folder => simp [hnode]
    | file contents =>
      cases endsAsFolder path with
      | true => simp [hnode]
      | false => simp [hnode]

theorem NamesFile.contains_eq_false (h : tree.NamesFile path place)
    (hnode : tree.node place = .missing) : tree.contains path = false := by
  rw [← Bool.not_eq_true, contains_iff]
  rintro ⟨other, hresolve, hfound⟩
  cases h.resolve_eq.symm.trans hresolve
  rw [hnode] at hfound
  rcases hfound with hfolder | ⟨⟨contents, hfile⟩, -⟩
  · cases hfolder
  · cases hfile

/-- A path that leads to a device, which holds nothing and stays where it is. -/
def NamesDevice (tree : FileTree) (path : String) : Prop :=
  ∃ place, tree.resolve path = .ok place ∧ isDevice place = true

/-- A file at the path, if there is one, can be removed. -/
def Removable (tree : FileTree) (path : String) : Prop :=
  ∀ place, tree.resolve path = .ok place → isDevice place = false ∧ place ∉ tree.fixed

/-- Nothing is left of a file that is removed. -/
theorem contains_remove_self (hfile : ∀ place, tree.resolve path = .ok place → tree.isFolder place = false)
    (hloose : tree.Removable path) : (tree.remove path).contains path = false := by
  rw [← Bool.not_eq_true, contains_iff]
  rintro ⟨other, hother, hfound⟩
  cases hresolve : tree.resolve path with
  | error cause =>
    rw [remove, hresolve, hresolve] at hother
    cases hother
  | ok place =>
    have hagree := agree_remove hresolve
    obtain rfl : place = other := by
      have hsame := hresolve.symm.trans (hagree.resolve_eq_ok.mp hother)
      exact Except.ok.inj hsame
    have hfolder := hfile place hresolve
    rcases hfound with hnode | ⟨⟨contents, hnode⟩, hend⟩
    · rw [node_eq_folder_iff, hagree.isFolder_eq, hfolder] at hnode
      cases hnode
    · obtain ⟨hplain, hout⟩ := hloose place hresolve
      rw [node_remove hresolve hend hfolder hplain hout] at hnode
      cases hnode

/-- The file at a path that leads to the place of a file is what lies there, unless that is a device. -/
theorem file?_eq_some_iff :
    tree.file? path = some contents ↔
      ∃ place, tree.resolve path = .ok place ∧ isDevice place = false ∧
        tree.node place = .file contents ∧ endsAsFolder path = false := by
  rw [file?]
  cases hresolve : tree.resolve path with
  | error cause => simp
  | ok place =>
    simp only [read, open?_of_resolve hresolve]
    cases hdevice : isDevice place with
    | true => simp [hdevice]
    | false =>
      cases hnode : tree.node place with
      | missing => simp [hnode, bind, Except.bind, Except.toOption]
      | folder => simp [hnode, bind, Except.bind, Except.toOption]
      | file contents =>
        cases hend : endsAsFolder path with
        | true => simp [bind, Except.bind, Except.toOption]
        | false => simp [bind, Except.bind, Except.toOption, hdevice, hnode]

namespace Agree

variable {places : List Parts} {before after : FileTree}

/-- A path that avoids the places where trees differ opens alike in them if it leads anywhere. -/
theorem open?_eq (h : Agree places before after) (hresolve : before.resolve path = .ok place)
    (hout : place ∉ places) : after.open? path = before.open? path := by
  rw [open?_of_resolve hresolve, open?_of_resolve (h.resolve_eq_ok.mpr hresolve), h.node_eq place hout]

theorem contains_eq (h : Agree places before after) (hout : before.Avoids path places) :
    after.contains path = before.contains path := by
  rw [Bool.eq_iff_iff, contains_iff, contains_iff]
  refine exists_congr fun place => ?_
  rw [h.resolve_eq_ok]
  refine and_congr_right fun hresolve => ?_
  rw [h.node_eq place (hout place hresolve)]

theorem file?_eq (h : Agree places before after) (hout : before.Avoids path places) :
    after.file? path = before.file? path := by
  refine Option.ext fun contents => ?_
  rw [file?_eq_some_iff, file?_eq_some_iff]
  refine exists_congr fun place => ?_
  rw [h.resolve_eq_ok]
  refine and_congr_right fun hresolve => ?_
  rw [h.node_eq place (hout place hresolve)]

/-- Writing at one of the places where trees may differ changes nothing else. -/
theorem node_of_ne {place parts : Parts} (h : Agree [place] before after) (hne : parts ≠ place) :
    after.node parts = before.node parts :=
  h.node_eq parts fun hin => hne (List.mem_singleton.mp hin)

theorem put (h : Agree places before after) (hsits : before.Sits place) (hin : place ∈ places)
    (contents : ByteArray) : Agree places before (after.put place contents) :=
  h.trans ((agree_put (h.sits hsits) contents).of_mem hin)

theorem overwrite (h : Agree places before after) (hsits : before.Sits place) (hin : place ∈ places)
    (offset : ℕ) (bytes : ByteArray) : Agree places before (after.overwrite place offset bytes) :=
  h.trans ((agree_overwrite (h.sits hsits) offset bytes).of_mem hin)

theorem remove (h : Agree places before after)
    (hin : ∀ place, before.resolve path = .ok place → place ∈ places) :
    Agree places before (after.remove path) := by
  cases hresolve : after.resolve path with
  | error cause =>
    rw [FileTree.remove, hresolve]
    exact h
  | ok place =>
    have hplace := hin place (h.resolve_eq_ok.mp hresolve)
    exact h.trans ((agree_remove hresolve).of_mem hplace)

theorem removable_iff (h : Agree places before after) :
    after.Removable path ↔ before.Removable path := by
  simp only [Removable, h.resolve_eq_ok, h.fixed_eq]

theorem namesFile_iff (h : Agree places before after) :
    after.NamesFile path place ↔ before.NamesFile path place := by
  constructor
  · rintro ⟨hresolve, hfolder, hend⟩
    exact ⟨h.resolve_eq_ok.mp hresolve, (h.isFolder_eq place) ▸ hfolder, hend⟩
  · rintro ⟨hresolve, hfolder, hend⟩
    exact ⟨h.resolve_eq_ok.mpr hresolve, (h.isFolder_eq place).trans hfolder, hend⟩

end Agree

end SieveFilter.FileTree
