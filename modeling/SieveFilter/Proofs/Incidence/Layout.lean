import SieveFilter.Matrix
import SieveFilter.Proofs.Incidence.Decrements
import SieveFilter.Proofs.Incidence.Failing
import SieveFilter.Proofs.Incidence.RestrictedPass
import SieveFilter.Proofs.Support.Alongside

/-!
# Layout of lists

How the lists of a table lie in blocks is of no concern to any operation.  Tables with different arenas are
alike when they agree in everything else, their lists as they are read back included.  Deletions, sweeps and
the trimming of the excess keep tables alike, and so do registrations and loadings in which no list is too
long for a block.
-/

namespace SieveFilter.Incidence

/-- Two tables agree, up to where their lists are stored. -/
structure Alike (table table' : Incidence) : Prop where
  used_eq : table.used = table'.used
  list_eq : table.list = table'.list
  roster_eq : table.roster = table'.roster
  liveRows_eq : table.liveRows = table'.liveRows
  liveIdeals_eq : table.liveIdeals = table'.liveIdeals

theorem alike_new (rows capacity capacity' : ℕ) :
    Alike (new rows capacity) (new rows capacity') := by
  refine ⟨rfl, ?_, rfl, rfl, rfl⟩
  funext row
  rw [list_of_unlisted ((ready_new rows capacity).unlisted row),
    list_of_unlisted ((ready_new rows capacity').unlisted row)]

/-- A row that is taken out of use has no list any more. -/
theorem list_dropping_nil (table : Incidence) (row : ℕ) :
    (table.dropping row []).list = Function.update table.list row [] := by
  funext other
  by_cases heq : other = row
  · subst heq
    rw [Function.update_self]
    apply list_of_unlisted
    by_cases hin : other < table.lists.size
    · simp [dropping, Array.getD_eq_getD_getElem?, hin]
    · simp [dropping, Array.getD_eq_getD_getElem?, hin]
  · rw [Function.update_of_ne heq]
    simp [list, dropping, Array.getD_eq_getD_getElem?, Ne.symm heq]

namespace Alike

variable {table table' : Incidence}

/-! ## What tables show -/

theorem size_eq (h : Alike table table') : table.size = table'.size := by
  rw [size, size, h.used_eq]

theorem isUsed_eq (h : Alike table table') : table.isUsed = table'.isUsed := by
  funext row
  rw [isUsed, isUsed, h.used_eq]

theorem usedRows_eq (h : Alike table table') : table.usedRows = table'.usedRows := by
  rw [usedRows, usedRows, h.size_eq, h.isUsed_eq]

theorem count_eq (h : Alike table table') : table.count = table'.count := by
  funext slot
  rw [count, count, h.roster_eq]

theorem excess_eq (h : Alike table table') : table.excess = table'.excess := by
  rw [excess, excess, h.liveRows_eq, h.liveIdeals_eq]

theorem hasSingleton_eq (h : Alike table table') : table.hasSingleton = table'.hasSingleton := by
  funext row
  rw [hasSingleton, hasSingleton, h.list_eq, h.count_eq]

theorem pairSums_eq (h : Alike table table') : table.pairSums = table'.pairSums := by
  simp only [pairSums, h.usedRows_eq, h.list_eq, h.count_eq, h.roster_eq]

theorem extent_eq (h : Alike table table') : table.extent = table'.extent := by
  simp only [extent, h.usedRows_eq, h.list_eq]

theorem clusters_eq (h : Alike table table') : table.clusters = table'.clusters := by
  have hlinks : table.links table.pairSums = table'.links table'.pairSums := by
    funext row
    simp only [links, h.list_eq, h.count_eq, h.pairSums_eq]
  simp only [clusters, hlinks, h.list_eq, h.used_eq]

theorem emitHeader_eq (h : Alike table table') : table.emitHeader = table'.emitHeader := by
  funext sink columns raw
  simp only [emitHeader, h.liveRows_eq]

theorem emitRows_eq (h : Alike table table') : table.emitRows = table'.emitRows := by
  have htake : Emission.take table = Emission.take table' := by
    funext raw emission event
    cases event with
    | opened path => rfl
    | fault cause => simp only [Emission.take, h.liveRows_eq]
    | line line =>
      simp only [Emission.take, Emission.takeLine, h.liveRows_eq, h.isUsed_eq, h.roster_eq]
  funext events sink raw
  simp only [emitRows, htake, h.liveRows_eq]

/-! ## Deletions -/

theorem dropReference (h : Alike table table') (slot : ℕ) :
    Alike (table.dropReference slot) (table'.dropReference slot) := by
  constructor
  · exact h.used_eq
  · exact h.list_eq
  · simp only [dropReference_roster, h.roster_eq]
  · exact h.liveRows_eq
  · simp only [Incidence.dropReference, h.roster_eq, h.liveIdeals_eq]

theorem foldl_dropReference (h : Alike table table') (slots : List ℕ) :
    Alike (slots.foldl Incidence.dropReference table)
      (slots.foldl Incidence.dropReference table') := by
  induction slots generalizing table table' with
  | nil => exact h
  | cons slot rest ih => exact ih (h.dropReference slot)

theorem delete (h : Alike table table') (row : ℕ) :
    Alike (table.delete row) (table'.delete row) := by
  have hdropping : Alike (table.dropping row []) (table'.dropping row []) := by
    constructor
    · exact congrArg (Array.setIfInBounds · row false) h.used_eq
    · rw [list_dropping_nil, list_dropping_nil, h.list_eq]
    · exact h.roster_eq
    · exact congrArg (· - 1) h.liveRows_eq
    · exact h.liveIdeals_eq
  rw [← dropping_list, ← dropping_list, h.list_eq]
  exact hdropping.foldl_dropReference _

theorem foldl_step (h : Alike table table') (deleted : ℕ) (rows : List ℕ) :
    Alike (rows.foldl Sweep.step ⟨table, deleted⟩).table
        (rows.foldl Sweep.step ⟨table', deleted⟩).table ∧
      (rows.foldl Sweep.step ⟨table, deleted⟩).deleted =
        (rows.foldl Sweep.step ⟨table', deleted⟩).deleted := by
  induction rows generalizing table table' deleted with
  | nil => exact ⟨h, rfl⟩
  | cons row rest ih =>
    simp only [List.foldl_cons, Sweep.step, h.isUsed_eq, h.hasSingleton_eq]
    split
    · exact ih (h.delete row) (deleted + 1)
    · exact ih h deleted

theorem sweep (h : Alike table table') :
    Alike table.sweep.table table'.sweep.table ∧ table.sweep.deleted = table'.sweep.deleted := by
  rw [Incidence.sweep, Incidence.sweep, h.size_eq]
  exact h.foldl_step 0 _

theorem removeSingletons (h : Alike table table') :
    Alike table.removeSingletons.table table'.removeSingletons.table := by
  induction hrows : table.usedCount using Nat.strongRecOn generalizing table table' with
  | ind rows ih =>
    obtain ⟨hsweep, hdeleted⟩ := h.sweep
    have hcount := usedCount_sweep table
    rw [removeSingletons_table table, removeSingletons_table table', ← hdeleted]
    split
    · exact hsweep
    · exact ih table.sweep.table.usedCount (by omega) hsweep rfl

theorem deleteUntil (h : Alike table table') (target : ℤ) (deleted : ℕ) (rows : List ℕ) :
    Alike (Incidence.deleteUntil target table deleted rows).table
      (Incidence.deleteUntil target table' deleted rows).table := by
  induction rows generalizing table table' deleted with
  | nil => exact h
  | cons row rest ih =>
    simp only [Incidence.deleteUntil, h.excess_eq]
    split
    · exact h
    · exact ih (h.delete row) (deleted + 1)

theorem sumOverflows_eq (h : Alike table table') (keep : ℕ) :
    table.sumOverflows keep = table'.sumOverflows keep := by
  simp only [Incidence.sumOverflows, h.excess_eq]

theorem target_eq (h : Alike table table') (keep : ℕ) : table.target keep = table'.target keep := by
  simp only [Incidence.target, h.excess_eq, h.sumOverflows_eq]

theorem trim (h : Alike table table') (keep : ℕ) (cost : Cost) :
    Alike (table.trim keep cost).table (table'.trim keep cost).table := by
  simp only [Incidence.trim, h.excess_eq, h.target_eq, h.clusters_eq, h.extent_eq]
  split
  · exact h
  · exact h.deleteUntil _ 0 _

theorem pruneRound (h : Alike table table') (keep : ℕ) (final : Bool) (cost : Cost) :
    Alike (table.pruneRound keep final cost).table (table'.pruneRound keep final cost).table := by
  cases final with
  | true =>
    rw [pruneRound_table_of_final, pruneRound_table_of_final]
    exact (h.trim keep cost).removeSingletons
  | false =>
    rw [pruneRound_table_of_not_final, pruneRound_table_of_not_final]
    exact h.removeSingletons

theorem prune (h : Alike table table') (keep : ℕ) (final : Bool) (cost : Cost) :
    Alike (table.prune keep final cost).table (table'.prune keep final cost).table := by
  induction hrows : table.liveRows using Nat.strongRecOn generalizing table table' with
  | ind rows ih =>
    have hround := h.pruneRound keep final cost
    have hle := liveRows_pruneRound_le table keep final cost
    rw [@prune_table table, @prune_table table', ← hround.liveRows_eq, ← h.liveRows_eq]
    split
    · exact hround
    · exact ih (table.pruneRound keep final cost).table.liveRows (by omega) hround rfl

/-- A pruning of one table overflows where that of the other does. -/
theorem overflow? (h : Alike table table') (keep : ℕ) (final : Bool) (cost : Cost) :
    (table.overflow? keep final cost = none ∧ table'.overflow? keep final cost = none) ∨
      ∃ stopped stopped' notices notices', Alike stopped stopped' ∧
        table.overflow? keep final cost = some (stopped, notices) ∧
        table'.overflow? keep final cost = some (stopped', notices') := by
  induction hrows : table.liveRows using Nat.strongRecOn generalizing table table' with
  | ind rows ih =>
    have hround := h.pruneRound keep final cost
    have hle := liveRows_pruneRound_le table keep final cost
    rw [Incidence.overflow?, Incidence.overflow?, ← h.sumOverflows_eq]
    simp only [← hround.liveRows_eq, ← h.liveRows_eq]
    split
    next => exact .inr ⟨table, table', _, _, h, rfl, rfl⟩
    next =>
      split
      next => exact .inl ⟨rfl, rfl⟩
      next =>
        rcases ih _ (by omega) hround rfl with
          ⟨hnone, hnone'⟩ | ⟨stopped, stopped', notices, notices', halike, hsome, hsome'⟩
        · rw [hnone, hnone']
          exact .inl ⟨rfl, rfl⟩
        · rw [hsome, hsome']
          exact .inr ⟨stopped, stopped', _, _, halike, rfl, rfl⟩

theorem releaseLists (h : Alike table table') : Alike table.releaseLists table'.releaseLists := by
  have hempty (table : Incidence) : table.releaseLists.list = fun _ => [] := by
    funext row
    apply list_of_unlisted
    simp only [Incidence.releaseLists, Array.getD_eq_getD_getElem?, Array.getElem?_map]
    cases table.lists[row]? with
    | none => rfl
    | some handle => rfl
  constructor
  · exact h.used_eq
  · rw [hempty, hempty]
  · exact h.roster_eq
  · exact h.liveRows_eq
  · exact h.liveIdeals_eq

theorem resetRoster (h : Alike table table') : Alike table.resetRoster table'.resetRoster :=
  ⟨h.used_eq, h.list_eq, rfl, h.liveRows_eq, h.liveIdeals_eq⟩

theorem withRoster (h : Alike table table') (roster : Roster) :
    Alike { table with roster } { table' with roster } :=
  ⟨h.used_eq, h.list_eq, rfl, h.liveRows_eq, h.liveIdeals_eq⟩

end Alike

/-! ## Registrations -/

theorem overflows_register {table : Incidence} {row : ℕ} {ideals : List Ideal}
    (hlong : table.arena.capacity < ideals.length + 1) : (table.register row ideals).Overflows := by
  rw [register_of_capacity_lt hlong]
  exact ⟨_, _, rfl⟩

theorem list_enlist {table : Incidence} {row : ℕ} {arena : Arena} {roster : Roster}
    {handle : Arena.Handle} {slots : List ℕ} (hstored : table.Stored)
    (hrow : row < table.lists.size) (hextends : Arena.Extends table.arena arena)
    (hholds : arena.Holds handle slots) :
    (table.enlist row arena roster handle).list = Function.update table.list row slots := by
  funext other
  by_cases heq : other = row
  · rw [heq, Function.update_self]
    exact list_of_held (list_enlist_self hrow) hholds
  · rw [Function.update_of_ne heq]
    exact list_of_extends hstored hextends (list_enlist_of_ne heq)

/-- A table in which further lists can be stored: the lists stored so far can be read back, and there are slots
enough for the ideals of the next row. -/
structure Extensible (table : Incidence) (ideals : List Ideal) : Prop where
  stored : table.Stored
  wellFormed : table.roster.WellFormed
  laid : table.arena.capacity ≤ Arena.maxCapacity
  few : (table.roster.known ∪ ideals.toFinset).card ≤ Arena.sentinel

namespace Alike

variable {table table' : Incidence}

theorem addReference (h : Alike table table') (slot : ℕ) :
    Alike (table.addReference slot) (table'.addReference slot) := by
  constructor
  · exact h.used_eq
  · exact h.list_eq
  · exact congrArg (Roster.increment · slot) h.roster_eq
  · exact h.liveRows_eq
  · simp only [Incidence.addReference, h.roster_eq, h.liveIdeals_eq]

theorem foldl_addReference (h : Alike table table') (slots : List ℕ) :
    Alike (slots.foldl Incidence.addReference table)
      (slots.foldl Incidence.addReference table') := by
  induction slots generalizing table table' with
  | nil => exact h
  | cons slot rest ih => exact ih (h.addReference slot)

/-- Where the list of a row fits into the blocks of both tables, its registration keeps them alike. -/
theorem register (h : Alike table table') {row : ℕ} {ideals : List Ideal}
    (hrow : row < table.lists.size) (hrow' : row < table'.lists.size)
    (hextensible : Extensible table ideals) (hextensible' : Extensible table' ideals) :
    Run.Alongside Alike (table.register row ideals) (table'.register row ideals) := by
  intro hfits hfits'
  have hshort : ideals.length + 1 ≤ table.arena.capacity := by
    by_contra hlong
    exact hfits (overflows_register (Nat.not_le.mp hlong))
  have hshort' : ideals.length + 1 ≤ table'.arena.capacity := by
    by_contra hlong
    exact hfits' (overflows_register (Nat.not_le.mp hlong))
  obtain ⟨arena, handle, hregister, -, hextends, hholds⟩ := exists_enlist row ideals
    hextensible.wellFormed hshort hextensible.laid hextensible.few
  obtain ⟨arena', handle', hregister', -, hextends', hholds'⟩ := exists_enlist row ideals
    hextensible'.wellFormed hshort' hextensible'.laid hextensible'.few
  rw [hregister, hregister', h.roster_eq]
  rw [h.roster_eq] at hholds
  generalize slotsOf table'.roster ideals = learned at hholds hholds'
  have henlist : Alike (table.enlist row arena learned.2 handle)
      (table'.enlist row arena' learned.2 handle') := by
    refine ⟨h.used_eq, ?_, rfl, h.liveRows_eq, h.liveIdeals_eq⟩
    rw [list_enlist hextensible.stored hrow hextends hholds,
      list_enlist hextensible'.stored hrow' hextends' hholds', h.list_eq]
  exact ⟨rfl, henlist.foldl_addReference learned.1⟩

end Alike

/-! ## Loadings -/

namespace Loading

/-- Two loadings have come equally far with tables that are alike. -/
structure Abreast (loading loading' : Loading) : Prop where
  table : Alike loading.table loading'.table
  summary_eq : loading.summary = loading'.summary

variable {lines : List String} {bounds : Bounds} {start start' : Incidence}
  {loading loading' : Loading}

theorem Abreast.withSummary (h : Abreast loading loading') (summary : LoadSummary) :
    Abreast { loading with summary } { loading' with summary } :=
  ⟨h.table, rfl⟩

theorem Abreast.register (h : Abreast loading loading') {row : ℕ} {line : String}
    (hrow : row < loading.table.lists.size) (hrow' : row < loading'.table.lists.size)
    (hextensible : ∀ relation, Relation.ofLine line = .ok relation →
      Extensible loading.table (relation.forMatrix.idealsAbove bounds))
    (hextensible' : ∀ relation, Relation.ofLine line = .ok relation →
      Extensible loading'.table (relation.forMatrix.idealsAbove bounds)) :
    Run.Alongside Abreast (loading.register bounds row line)
      (loading'.register bounds row line) := by
  obtain ⟨table, scanned, registered, free⟩ := loading
  obtain ⟨table', summary⟩ := loading'
  obtain ⟨htable, hsummary⟩ := h
  obtain rfl : ⟨scanned, registered, free⟩ = summary := hsummary
  cases hread : Relation.ofLine line with
  | error error =>
    simp only [Loading.register, hread]
    exact .fail ⟨htable, rfl⟩
  | ok relation =>
    simp only [Loading.register, hread]
    have hstored := htable.register hrow hrow' (hextensible relation hread)
      (hextensible' relation hread)
    have hwithin : ∀ left right : Incidence, Alike left right →
        Abreast ⟨left, scanned, registered, if relation.isFree then free + 1 else free⟩
          ⟨right, scanned, registered, if relation.isFree then free + 1 else free⟩ :=
      fun _ _ halike => ⟨halike, rfl⟩
    apply (hstored.within hwithin).next
    intro after after' _ _ _ hafter
    exact .done ⟨hafter.table, by rw [hafter.summary_eq]⟩

theorem Sound.extensible (hsound : Sound lines bounds start loading)
    (hlaid : start.arena.capacity ≤ Arena.maxCapacity)
    (hfew : (allIdeals lines).card ≤ Arena.sentinel) {line : String}
    (hline : lines[loading.summary.scanned]? = some line) {relation : Relation}
    (hread : Relation.ofLine line = .ok relation) :
    Extensible loading.table (relation.forMatrix.idealsAbove bounds) := by
  refine ⟨Loaded.stored hsound, Loaded.wellFormed hsound, ?_, ?_⟩
  · rw [Loaded.capacity_eq hsound]
    exact hlaid
  · rw [idealsAbove_eq_admitted hline hread]
    exact card_known_le hsound (List.getElem?_eq_some_iff.mp hline).1 hfew

theorem Abreast.takeLine (h : Abreast loading loading') {line : String}
    (hsound : Sound lines bounds start loading) (hsound' : Sound lines bounds start' loading')
    (hline : lines[loading.summary.scanned]? = some line)
    (hlaid : start.arena.capacity ≤ Arena.maxCapacity)
    (hlaid' : start'.arena.capacity ≤ Arena.maxCapacity)
    (hfew : (allIdeals lines).card ≤ Arena.sentinel) :
    Run.Alongside Abreast (loading.takeLine bounds line) (loading'.takeLine bounds line) := by
  have hline' : lines[loading'.summary.scanned]? = some line := h.summary_eq ▸ hline
  simp only [Loading.takeLine, ← h.summary_eq, ← h.table.size_eq, ← h.table.isUsed_eq]
  split
  next => exact .fail h
  next hin =>
    apply Run.Alongside.afterAll
    split
    next hused =>
      have hrow : loading.summary.scanned < loading.table.lists.size := by
        rw [Loaded.lists_size hsound]
        exact Nat.not_le.mp hin
      have hrow' : loading.summary.scanned < loading'.table.lists.size := by
        rw [Loaded.lists_size hsound', ← h.table.size_eq]
        exact Nat.not_le.mp hin
      exact (h.withSummary _).register hrow hrow'
        (fun _ hread => hsound.extensible hlaid hfew hline hread)
        fun _ hread => hsound'.extensible hlaid' hfew hline' hread
    next => exact .done (h.withSummary _)

/-- Walks over the remaining lines keep two loadings abreast. -/
theorem Abreast.each {events : List Event} {rest : List String}
    (hyields : Event.Yields events rest) (h : Abreast loading loading')
    (hsound : Sound lines bounds start loading) (hsound' : Sound lines bounds start' loading')
    (hrest : lines.drop loading.summary.scanned = rest)
    (hlaid : start.arena.capacity ≤ Arena.maxCapacity)
    (hlaid' : start'.arena.capacity ≤ Arena.maxCapacity)
    (hfew : (allIdeals lines).card ≤ Arena.sentinel) :
    Run.Alongside Abreast (Run.each (Loading.take bounds) loading events)
      (Run.each (Loading.take bounds) loading' events) := by
  induction hyields generalizing loading loading' with
  | nil => exact .done h
  | opened _ ih =>
    apply Run.Alongside.each_cons
    · exact .done h
    · intro middle middle' hends hends' _
      obtain ⟨rfl, -⟩ := Run.ends_done.mp hends
      obtain ⟨rfl, -⟩ := Run.ends_done.mp hends'
      exact ih h hsound hsound' hrest
  | @line text events rest _ ih =>
    obtain ⟨hline, hlater⟩ := next_of_drop hrest
    have hline' : lines[loading'.summary.scanned]? = some text := h.summary_eq ▸ hline
    apply Run.Alongside.each_cons
    · exact h.takeLine hsound hsound' hline hlaid hlaid' hfew
    · intro middle middle' hends hends' hmiddle
      obtain ⟨hscanned, hnext⟩ := hsound.of_ends hline hlaid hfew hends
      obtain ⟨-, hnext'⟩ := hsound'.of_ends hline' hlaid' hfew hends'
      exact ih hmiddle hnext hnext' (by rw [hscanned, hlater])

theorem Abreast.finish (h : Abreast loading loading') :
    Run.Alongside Abreast loading.finish loading'.finish := by
  simp only [Loading.finish, ← h.summary_eq, ← h.table.size_eq]
  apply Run.Alongside.after
  split
  · exact .done h
  · exact .fail h

end Loading

/-- Loadings of tables that are alike go alongside each other. -/
theorem Alike.load {table table' : Incidence} {lines : List String} {events : List Event}
    (h : Alike table table') (hready : table.Ready) (hready' : table'.Ready)
    (hyields : Event.Yields events lines) (hlaid : table.arena.capacity ≤ Arena.maxCapacity)
    (hlaid' : table'.arena.capacity ≤ Arena.maxCapacity)
    (hfew : (allIdeals lines).card ≤ Arena.sentinel) (build : Build) (bounds : Bounds) :
    Run.Alongside Alike (table.load build bounds events) (table'.load build bounds events) := by
  rw [load_eq_fill hready.roster_size, load_eq_fill hready'.roster_size]
  have hstart : Loading.Abreast ⟨{ table with liveIdeals := 0 }, ⟨0, 0, 0⟩⟩
      ⟨{ table' with liveIdeals := 0 }, ⟨0, 0, 0⟩⟩ :=
    ⟨⟨h.used_eq, h.list_eq, h.roster_eq, h.liveRows_eq, rfl⟩, rfl⟩
  have hwalk := hstart.each hyields (hready.loaded (admitted lines bounds))
    (hready'.loaded (admitted lines bounds)) rfl hlaid hlaid' hfew
  have hload := hwalk.next fun loading loading' _ _ _ hmiddle => hmiddle.finish
  exact hload.within fun _ _ hloaded => hloaded.table

end SieveFilter.Incidence
