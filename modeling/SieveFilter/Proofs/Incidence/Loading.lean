import SieveFilter.Incidence.Load
import SieveFilter.Proofs.Incidence.Registration
import SieveFilter.Proofs.Relation.Ideals

/-!
# Loading

What one reading of the input makes of a table that is ready to be loaded.  Loading succeeds exactly when
there is a line for every row and the lines of the used rows can be read and stored, and then the table
represents the ideals of its used rows that the bounds admit.
-/

namespace SieveFilter

/-! ## Readings without faults -/

/-- The events of a reading that meets the given lines, and no fault. -/
inductive Event.Yields : List Event → List String → Prop
  | nil : Yields [] []
  | opened {path : String} {events : List Event} {lines : List String}
      (hrest : Yields events lines) : Yields (.opened path :: events) lines
  | line {text : String} {events : List Event} {lines : List String}
      (hrest : Yields events lines) : Yields (.line text :: events) (text :: lines)

/-- The lines among the events of a reading. -/
def Event.texts (events : List Event) : List String :=
  events.filterMap fun
    | .line text => some text
    | _ => none

/-- The items of a reading, one for each row: its lines, and the faults in place of lines. -/
def Event.items (events : List Event) : List Event :=
  events.filter fun
    | .opened _ => false
    | _ => true

/-- The lines that a reading meets before its first fault. -/
def Event.leading : List Event → List String
  | [] => []
  | .opened _ :: rest => leading rest
  | .line text :: rest => text :: leading rest
  | .fault _ :: _ => []

/-- A reading without a fault meets the lines that are among its events. -/
theorem Event.yields_texts {events : List Event}
    (hnone : ∀ event ∈ events, ∀ cause, event ≠ .fault cause) :
    Event.Yields events (Event.texts events) := by
  induction events with
  | nil => exact .nil
  | cons event rest ih =>
    obtain ⟨hevent, hrest⟩ := List.forall_mem_cons.mp hnone
    cases event with
    | opened path => exact .opened (ih hrest)
    | line text => exact .line (ih hrest)
    | fault cause => exact absurd rfl (hevent cause)

/-- Every reading of the source meets the same lines. -/
def Source.Yields (source : Source) (lines : List String) : Prop :=
  ∀ reading, Event.Yields (source reading) lines

theorem Source.yields_ofLines (lines : List String) : (Source.ofLines lines).Yields lines := by
  intro reading
  simp only [Source.ofLines]
  induction lines with
  | nil => exact .nil
  | cons text rest ih => exact .line ih

/-- The next entry of those that are left. -/
theorem next_of_drop {entries rest : List ι} {n : ℕ} {entry : ι} (hrest : entries.drop n = entry :: rest) :
    entries[n]? = some entry ∧ entries.drop (n + 1) = rest := by
  have hin : n < entries.length := by
    by_contra hout
    rw [List.drop_eq_nil_of_le (by omega)] at hrest
    cases hrest
  rw [List.drop_eq_getElem_cons hin, List.cons.injEq] at hrest
  exact ⟨by rw [List.getElem?_eq_getElem hin, hrest.1], hrest.2⟩

/-- A small input.  The rows 0, 1 and 3 share two ideals; each of the others has an ideal of its own. -/
def Source.sampleLines : List String :=
  ["1,1:3:5", "6,1:3:5", "4,1:3,7:", "11,1:3,d,d:5", "5,0::1"]

namespace Incidence

/-- The ideals of each row that the bounds admit. -/
abbrev admitted (lines : List String) (bounds : Bounds) : ℕ → List Ideal :=
  Rows.restrict (Relation.rowIdeals lines) bounds.admits

/-- The row can be loaded: it is inside the table and, if it is used, its line can be read and its list of
ideals fits into a block. -/
structure Fits (lines : List String) (bounds : Bounds) (table : Incidence) (row : ℕ) : Prop where
  inside : row < table.size
  readable : row ∈ table.usedSet →
    ∃ line relation, lines[row]? = some line ∧ Relation.ofLine line = .ok relation
  short : row ∈ table.usedSet →
    (admitted lines bounds row).length + 1 ≤ table.arena.capacity

/-- All ideals of an input. -/
def allIdeals (lines : List String) : Finset Ideal :=
  Rows.referenced (Relation.rowIdeals lines) (Finset.range lines.length)

namespace Loading

variable {lines : List String} {bounds : Bounds} {start : Incidence}

/-- The invariant of a walk over the lines, with the number of lines taken so far. -/
def Sound (lines : List String) (bounds : Bounds) (start : Incidence) (loading : Loading) : Prop :=
  Loaded (admitted lines bounds) start loading.summary.scanned loading.table

/-- There are slots enough for the ideals of the next row. -/
theorem card_known_le {table : Incidence} {row : ℕ}
    (hloaded : Loaded (admitted lines bounds) start row table) (hin : row < lines.length)
    (hfew : (allIdeals lines).card ≤ Arena.sentinel) :
    (table.roster.known ∪ (admitted lines bounds row).toFinset).card ≤ Arena.sentinel := by
  refine (Finset.card_le_card ?_).trans hfew
  apply Finset.union_subset
  · exact (hloaded.known_subset.trans Rows.referenced_restrict_subset).trans
      (Rows.referenced_mono (Finset.range_mono hin.le))
  · intro ideal hideal
    have hmem := Rows.mem_restrict.mp (List.mem_toFinset.mp hideal)
    exact Rows.mem_referenced.mpr ⟨row, Finset.mem_range.mpr hin, hmem.1⟩

/-- What a line that can be read registers are the admitted ideals of its row. -/
theorem idealsAbove_eq_admitted {line : String} {row : ℕ} (hline : lines[row]? = some line)
    {relation : Relation} (hread : Relation.ofLine line = .ok relation) :
    relation.forMatrix.idealsAbove bounds = admitted lines bounds row := by
  rw [Relation.idealsAbove_of_ofLine hread, admitted, Rows.restrict, Relation.rowIdeals, hline]
  rfl

/-- The line of a used row is registered exactly when the row fits. -/
theorem register_cases (loading : Loading) {row : ℕ} {line : String}
    (hloaded : Loaded (admitted lines bounds) start row loading.table)
    (hline : lines[row]? = some line) (hrow : row ∈ start.usedSet)
    (hlaid : start.arena.capacity ≤ Arena.maxCapacity)
    (hfew : (allIdeals lines).card ≤ Arena.sentinel) :
    (Fits lines bounds start row ∧ ∃ after : Loading,
      (loading.register bounds row line).Ends after true ∧
        after.summary.scanned = loading.summary.scanned ∧
        Loaded (admitted lines bounds) start (row + 1) after.table) ∨
    (¬ Fits lines bounds start row ∧
      ∀ after more, ¬ (loading.register bounds row line).Ends after more) := by
  have hused : loading.table.usedSet = start.usedSet := by
    rw [usedSet, usedSet, hloaded.used_eq]
  have hin : row < lines.length := (List.getElem?_eq_some_iff.mp hline).1
  obtain ⟨table, scanned, registered, free⟩ := loading
  simp only at hloaded hused
  unfold register
  cases hread : Relation.ofLine line with
  | error cause =>
    refine .inr ⟨?_, fun after more => Run.not_ends_fail⟩
    intro hfits
    obtain ⟨line', relation, hline', hread'⟩ := hfits.readable hrow
    rw [hline, Option.some.injEq] at hline'
    rw [← hline', hread] at hread'
    cases hread'
  | ok relation =>
    simp only [idealsAbove_eq_admitted hline hread]
    by_cases hshort : (admitted lines bounds row).length + 1 ≤ start.arena.capacity
    · have hknown := card_known_le hloaded hin hfew
      have hrowTable : row ∈ table.usedSet := hused ▸ hrow
      obtain ⟨after, hends, hregistered⟩ := registered_register row (admitted lines bounds row)
        hloaded.wellFormed
        (hloaded.lists_size ▸ lt_size_of_mem_usedSet hrowTable) hloaded.liveIdeals_eq
        (fun slot => by rw [hloaded.count_eq]; exact Int.natCast_nonneg _)
        (hloaded.capacity_eq ▸ hshort) (hloaded.capacity_eq ▸ hlaid) hknown
      refine .inl ⟨⟨lt_size_of_mem_usedSet hrow, fun _ => ⟨line, relation, hline, hread⟩,
        fun _ => hshort⟩, _, (hends.within _).next (Run.ends_done.mpr ⟨rfl, rfl⟩), rfl, ?_⟩
      exact hloaded.registered hrowTable hregistered
    · refine .inr ⟨fun hfits => hshort (hfits.short hrow), ?_⟩
      intro after more hends
      obtain ⟨middle, between, hregister, -⟩ := Run.ends_next.mp hends
      obtain ⟨inner, hinner, -⟩ := Run.ends_within.mp hregister
      exact not_ends_register (by rw [hloaded.capacity_eq]; omega) inner hinner

/-- The line of the next row is taken exactly when the row fits. -/
theorem takeLine_cases {loading : Loading} {line : String}
    (hsound : Sound lines bounds start loading)
    (hline : lines[loading.summary.scanned]? = some line)
    (hlaid : start.arena.capacity ≤ Arena.maxCapacity)
    (hfew : (allIdeals lines).card ≤ Arena.sentinel) :
    (Fits lines bounds start loading.summary.scanned ∧ ∃ after : Loading,
      (loading.takeLine bounds line).Ends after true ∧
        after.summary.scanned = loading.summary.scanned + 1 ∧ Sound lines bounds start after) ∨
    (¬ Fits lines bounds start loading.summary.scanned ∧
      ∀ after more, ¬ (loading.takeLine bounds line).Ends after more) := by
  have hused : loading.table.used = start.used := hsound.used_eq
  have hsize : loading.table.size = start.size := by rw [size, size, hused]
  unfold takeLine
  simp only [hsize]
  by_cases hin : start.size ≤ loading.summary.scanned
  · rw [if_pos hin]
    right
    constructor
    · intro hfits
      have hinside := hfits.inside
      omega
    · intro after more
      exact Run.not_ends_fail
  · rw [if_neg hin]
    simp only [Run.ends_afterAll]
    by_cases hrow : loading.table.isUsed loading.summary.scanned = true
    · rw [if_pos hrow]
      have hmem : loading.summary.scanned ∈ start.usedSet := by
        rw [usedSet, ← hused]
        exact mem_usedSet.mpr hrow
      have hnext := register_cases { loading with
          summary := { loading.summary with scanned := loading.summary.scanned + 1 } }
        hsound hline hmem hlaid hfew
      rcases hnext with ⟨hfits, after, hends, hscanned, hloaded⟩ | hfails
      · refine .inl ⟨hfits, after, hends, hscanned, ?_⟩
        rw [Sound, hscanned]
        exact hloaded
      · exact .inr hfails
    · rw [if_neg hrow]
      have hmem : loading.summary.scanned ∉ loading.table.usedSet := mt mem_usedSet.mp hrow
      have hstart : loading.summary.scanned ∉ start.usedSet := by
        rw [usedSet, ← hused]
        exact hmem
      exact .inl ⟨⟨by omega, fun h => absurd h hstart, fun h => absurd h hstart⟩, _,
        Run.ends_done.mpr ⟨rfl, rfl⟩, rfl, hsound.skip hmem⟩

/-- A line that is taken leaves the invariant for the next row. -/
theorem Sound.of_ends {loading after : Loading} {line : String} {more : Bool}
    (hsound : Sound lines bounds start loading)
    (hline : lines[loading.summary.scanned]? = some line)
    (hlaid : start.arena.capacity ≤ Arena.maxCapacity)
    (hfew : (allIdeals lines).card ≤ Arena.sentinel)
    (hends : (loading.takeLine bounds line).Ends after more) :
    after.summary.scanned = loading.summary.scanned + 1 ∧ Sound lines bounds start after := by
  rcases takeLine_cases hsound hline hlaid hfew with
    ⟨-, other, hother, hscanned, hnext⟩ | ⟨-, hfails⟩
  · obtain ⟨rfl, -⟩ := hends.unique hother
    exact ⟨hscanned, hnext⟩
  · exact absurd hends (hfails after more)

/-- A walk over the remaining lines succeeds exactly when all their rows fit. -/
theorem each_cases {events : List Event} {rest : List String} (hyields : Event.Yields events rest)
    (loading : Loading) (hsound : Sound lines bounds start loading)
    (hle : loading.summary.scanned ≤ lines.length)
    (hrest : lines.drop loading.summary.scanned = rest)
    (hlaid : start.arena.capacity ≤ Arena.maxCapacity)
    (hfew : (allIdeals lines).card ≤ Arena.sentinel) :
    ((∀ row, loading.summary.scanned ≤ row → row < lines.length → Fits lines bounds start row) ∧
      ∃ after : Loading, (Run.each (take bounds) loading events).Ends after () ∧
        after.summary.scanned = lines.length ∧ Sound lines bounds start after) ∨
    ((∃ row < lines.length, ¬ Fits lines bounds start row) ∧
      ∀ after, ¬ (Run.each (take bounds) loading events).Ends after ()) := by
  induction hyields generalizing loading with
  | nil =>
    have hend : lines.length ≤ loading.summary.scanned := List.drop_eq_nil_iff.mp hrest
    exact .inl ⟨fun row hrow hlt => by omega, loading, ⟨rfl, rfl⟩, by omega, hsound⟩
  | opened _ ih =>
    rcases ih loading hsound hle hrest with ⟨hfits, after, hends, hend⟩ | ⟨hunfit, hfails⟩
    · exact .inl ⟨hfits, after, Run.Ends.each_cons (Run.ends_done.mpr ⟨rfl, rfl⟩) hends, hend⟩
    · refine .inr ⟨hunfit, ?_⟩
      intro after hends
      obtain ⟨middle, more, hfirst, hends⟩ := Run.ends_each_cons.mp hends
      obtain ⟨rfl, rfl⟩ := Run.ends_done.mp hfirst
      exact hfails after hends
  | @line text events rest _ ih =>
    obtain ⟨hline, hlater⟩ := next_of_drop hrest
    have hin := (List.getElem?_eq_some_iff.mp hline).1
    rcases takeLine_cases hsound hline hlaid hfew with
      ⟨hfits, middle, hmiddle, hscanned, hsoundMiddle⟩ | ⟨hunfit, hfails⟩
    · rcases ih middle hsoundMiddle (by omega) (by rw [hscanned, hlater]) with
        ⟨hrestFits, after, hends, hend⟩ | ⟨hunfit, hfails⟩
      · refine .inl ⟨?_, after, Run.Ends.each_cons hmiddle hends, hend⟩
        intro row hrow hlt
        rcases Nat.eq_or_lt_of_le hrow with rfl | hafter
        · exact hfits
        · exact hrestFits row (by omega) hlt
      · refine .inr ⟨hunfit, ?_⟩
        intro after hends
        obtain ⟨other, more, hfirst, hends⟩ := Run.ends_each_cons.mp hends
        obtain ⟨rfl, rfl⟩ := hmiddle.unique hfirst
        exact hfails after hends
    · refine .inr ⟨⟨loading.summary.scanned, hin, hunfit⟩, ?_⟩
      intro after hends
      obtain ⟨other, more, hfirst, -⟩ := Run.ends_each_cons.mp hends
      exact hfails other more hfirst

theorem ends_finish {loading after : Loading} {summary : LoadSummary} :
    loading.finish.Ends after summary ↔
      loading.summary.scanned = loading.table.size ∧ loading = after ∧
        loading.summary = summary := by
  obtain ⟨table, scanned, registered, free⟩ := loading
  simp only [finish, Run.ends_after]
  by_cases hall : scanned = table.size
  · rw [if_pos hall, Run.ends_done]
    simp [hall]
  · rw [if_neg hall]
    simp [hall]

end Loading

/-! ## Rosters that are not empty -/

/-- A loading fills the lists, or breaks off with the table as it was. -/
theorem load_eq_or (table : Incidence) (build : Build) (bounds : Bounds) (events : List Event) :
    table.load build bounds events = table.fill bounds events ∨
      table.load build bounds events = .fail table .breakdown := by
  rw [load]
  split
  · exact .inr rfl
  · exact .inl rfl

/-- Every build fills the lists if the roster is empty. -/
theorem load_eq_fill {table : Incidence} (h : table.roster.size = 0) (build : Build) (bounds : Bounds)
    (events : List Event) : table.load build bounds events = table.fill bounds events := by
  simp [load, h]

theorem ends_load {table after : Incidence} {build : Build} {bounds : Bounds} {events : List Event}
    {summary : LoadSummary} :
    (table.load build bounds events).Ends after summary ↔
      (build.asserts = true → table.roster.size = 0) ∧
        (table.fill bounds events).Ends after summary := by
  rw [load]
  split
  next hbroken => simp_all [Run.not_ends_fail]
  next hfilled => simp_all

/-- A table can be loaded from lines: there is one for each row, and every row fits. -/
def Loadable (lines : List String) (bounds : Bounds) (table : Incidence) : Prop :=
  lines.length = table.size ∧ ∀ row < lines.length, Fits lines bounds table row

/-- Loading a ready table that can be loaded succeeds, and registers every row; no other loading
succeeds. -/
theorem Ready.load_cases {table : Incidence} (h : table.Ready) {lines : List String}
    (build : Build) (bounds : Bounds) {events : List Event} (hyields : Event.Yields events lines)
    (hlaid : table.arena.capacity ≤ Arena.maxCapacity)
    (hfew : (allIdeals lines).card ≤ Arena.sentinel) :
    (Loadable lines bounds table ∧ ∃ after summary,
      (table.load build bounds events).Ends after summary ∧
        Loaded (admitted lines bounds) { table with liveIdeals := 0 } lines.length after) ∨
    (¬ Loadable lines bounds table ∧
      ∀ after summary, ¬ (table.load build bounds events).Ends after summary) := by
  rw [load_eq_fill h.roster_size]
  have hsound : Loading.Sound lines bounds { table with liveIdeals := 0 }
      ⟨{ table with liveIdeals := 0 }, ⟨0, 0, 0⟩⟩ := h.loaded _
  have hwalk := Loading.each_cases hyields _ hsound (Nat.zero_le _) rfl hlaid hfew
  have hfits (row : ℕ) :
      Fits lines bounds { table with liveIdeals := 0 } row ↔ Fits lines bounds table row :=
    ⟨fun hfits => ⟨hfits.inside, hfits.readable, hfits.short⟩,
      fun hfits => ⟨hfits.inside, hfits.readable, hfits.short⟩⟩
  simp only [hfits] at hwalk
  unfold fill
  rcases hwalk with ⟨hall, after, hends, hscanned, hsound⟩ | ⟨⟨row, hlt, hunfit⟩, hfails⟩
  · have hsize : after.table.size = table.size := by rw [size, hsound.used_eq]; rfl
    by_cases hlength : lines.length = table.size
    · refine .inl ⟨⟨hlength, fun row hlt => hall row (Nat.zero_le row) hlt⟩, after.table,
        after.summary, (hends.next ?_).within _, hscanned ▸ hsound⟩
      exact Loading.ends_finish.mpr ⟨by omega, rfl, rfl⟩
    · refine .inr ⟨fun hloadable => hlength hloadable.1, ?_⟩
      intro final summary hfinal
      obtain ⟨inner, hinner, -⟩ := Run.ends_within.mp hfinal
      obtain ⟨middle, between, hwalk, hfinish⟩ := Run.ends_next.mp hinner
      obtain ⟨rfl, -⟩ := hends.unique hwalk
      have hmet := (Loading.ends_finish.mp hfinish).1
      omega
  · refine .inr ⟨fun hloadable => hunfit (hloadable.2 row hlt), ?_⟩
    intro final summary hfinal
    obtain ⟨inner, hinner, -⟩ := Run.ends_within.mp hfinal
    obtain ⟨middle, between, hwalk, -⟩ := Run.ends_next.mp hinner
    exact hfails middle hwalk

/-- What a loading makes of a table. -/
structure Loads (lines : List String) (bounds : Bounds) (before after : Incidence) : Prop where
  represents : after.Represents (admitted lines bounds)
  used_eq : after.used = before.used
  capacity_eq : after.arena.capacity = before.arena.capacity
  phase_eq : after.roster.phase = before.roster.phase
  known_subset : after.roster.known ⊆ allIdeals lines

theorem Loads.usedSet_eq {lines : List String} {bounds : Bounds} {before after : Incidence}
    (h : Loads lines bounds before after) : after.usedSet = before.usedSet := by
  rw [usedSet, usedSet, h.used_eq]

theorem Loads.size_eq {lines : List String} {bounds : Bounds} {before after : Incidence}
    (h : Loads lines bounds before after) : after.size = before.size := by
  rw [size, size, h.used_eq]

section

variable {table : Incidence} {lines : List String} {build : Build} {bounds : Bounds} {events : List Event}

/-- A table that can be loaded is loaded. -/
theorem Ready.exists_load (h : table.Ready) (hyields : Event.Yields events lines)
    (hlaid : table.arena.capacity ≤ Arena.maxCapacity)
    (hfew : (allIdeals lines).card ≤ Arena.sentinel) (hloadable : Loadable lines bounds table) :
    ∃ after summary, (table.load build bounds events).Ends after summary ∧
      Loads lines bounds table after := by
  rcases h.load_cases build bounds hyields hlaid hfew with
    ⟨-, after, summary, hends, hloaded⟩ | ⟨hunfit, -⟩
  · have hsize : after.size = lines.length := by
      rw [hloadable.1, size, hloaded.used_eq]
      rfl
    refine ⟨after, summary, hends, hloaded.represents hsize.le h.liveRows_eq, hloaded.used_eq,
      hloaded.capacity_eq, hloaded.phase_eq, ?_⟩
    exact hloaded.known_subset.trans Rows.referenced_restrict_subset
  · exact absurd hloadable hunfit

/-- A loading that succeeds had a table that could be loaded, and loaded it. -/
theorem Ready.loads_of_ends (h : table.Ready) (hyields : Event.Yields events lines)
    (hlaid : table.arena.capacity ≤ Arena.maxCapacity)
    (hfew : (allIdeals lines).card ≤ Arena.sentinel) {after : Incidence} {summary : LoadSummary}
    (hends : (table.load build bounds events).Ends after summary) :
    Loadable lines bounds table ∧ Loads lines bounds table after := by
  have hloadable : Loadable lines bounds table := by
    rcases h.load_cases build bounds hyields hlaid hfew with ⟨hloadable, -⟩ | ⟨-, hfails⟩
    · exact hloadable
    · exact absurd hends (hfails after summary)
  obtain ⟨other, summary', hother, hloads⟩ := h.exists_load hyields hlaid hfew hloadable
  obtain ⟨rfl, -⟩ := hends.unique hother
  exact ⟨hloadable, hloads⟩

/-- What can be loaded above some bounds can be loaded above higher bounds, and with fewer rows. -/
theorem Loadable.mono {table' : Incidence} {bounds' : Bounds} (h : Loadable lines bounds' table')
    (hrational : bounds'.rational ≤ bounds.rational)
    (halgebraic : bounds'.algebraic ≤ bounds.algebraic) (hsize : table.size = table'.size)
    (hused : table.usedSet ⊆ table'.usedSet)
    (hcapacity : table.arena.capacity = table'.arena.capacity) :
    Loadable lines bounds table := by
  refine ⟨h.1.trans hsize.symm, ?_⟩
  intro row hrow
  have hfits := h.2 row hrow
  refine ⟨hsize ▸ hfits.inside, fun hmem => hfits.readable (hused hmem), ?_⟩
  intro hmem
  have hshort := hfits.short (hused hmem)
  have hsublist : (admitted lines bounds row).Sublist (admitted lines bounds' row) :=
    List.monotone_filter_right _ fun _ => Bounds.admits_mono hrational halgebraic
  have hlength := hsublist.length_le
  omega

end

/-! ## Readings that were loaded -/

/-- Every event that is taken leaves a loading asking for the next one. -/
theorem Loading.more_of_ends_take {bounds : Bounds} {loading after : Loading} {event : Event}
    {more : Bool} (h : (loading.take bounds event).Ends after more) :
    more = true ∧ ∀ cause, event ≠ .fault cause := by
  cases event with
  | opened path => exact ⟨(Run.ends_done.mp h).2.symm, fun cause => by simp⟩
  | fault cause => exact absurd h Run.not_ends_fail
  | line line =>
    refine ⟨?_, fun cause => by simp⟩
    simp only [take, takeLine] at h
    split at h
    next => exact absurd h Run.not_ends_fail
    next =>
      split at h
      next =>
        simp only [register, Run.ends_afterAll] at h
        split at h
        next => exact absurd h Run.not_ends_fail
        next =>
          obtain ⟨_, _, -, hdone⟩ := Run.ends_next.mp h
          exact (Run.ends_done.mp hdone).2.symm
      next => exact (Run.ends_done.mp h).2.symm

theorem Loading.not_fault_of_ends_each {bounds : Bounds} {loading after : Loading}
    {events : List Event} (h : (Run.each (take bounds) loading events).Ends after ()) :
    ∀ event ∈ events, ∀ cause, event ≠ .fault cause := by
  induction events generalizing loading with
  | nil => exact fun event hevent => absurd hevent List.not_mem_nil
  | cons first rest ih =>
    obtain ⟨middle, more, hfirst, hrest⟩ := Run.ends_each_cons.mp h
    obtain ⟨rfl, hnone⟩ := more_of_ends_take hfirst
    exact List.forall_mem_cons.mpr ⟨hnone, ih hrest⟩

theorem not_fault_of_ends_load {build : Build} {bounds : Bounds} {table after : Incidence}
    {events : List Event} {summary : LoadSummary}
    (h : (table.load build bounds events).Ends after summary) :
    ∀ event ∈ events, ∀ cause, event ≠ .fault cause := by
  obtain ⟨_, hload, -⟩ := Run.ends_within.mp (ends_load.mp h).2
  obtain ⟨_, _, hwalk, -⟩ := Run.ends_next.mp hload
  exact Loading.not_fault_of_ends_each hwalk

end Incidence

end SieveFilter
