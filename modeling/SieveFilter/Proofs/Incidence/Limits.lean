import SieveFilter.Matrix
import SieveFilter.Columns
import SieveFilter.Proofs.Support.Limits

/-!
# Writing to sinks with a limit

Renumbering and the writing of the matrix only append to their sinks, and stop at the first text that is not
taken as a whole.  So what they write with a limit is a beginning of what they write without.
-/

namespace SieveFilter

/-! ## The column map -/

namespace Roster

namespace Numbering

/-- The sink of the column map.  Nothing is written if there is none. -/
def outlet : Outlet Numbering where
  sink numbering := numbering.map.getD (.empty none)
  modify change numbering := { numbering with map := numbering.map.map change }

variable {limit : ℕ}

theorem cut_mk (roster : Roster) (map : Option Sink) (columns singletons : ℕ) :
    outlet.cut limit ⟨roster, map, columns, singletons⟩ =
      ⟨roster, map.map (Sink.cut limit), columns, singletons⟩ := rfl

theorem limited_writeLine (numbering : Numbering) (ideal : Ideal) :
    Run.Limited outlet limit numbering ((outlet.cut limit numbering).writeLine ideal)
      (numbering.writeLine ideal) := by
  obtain ⟨roster, map, columns, singletons⟩ := numbering
  cases map with
  | none => exact .of_eq rfl rfl rfl
  | some sink =>
    apply Run.Limited.put (fun sink => (⟨roster, some sink, columns, singletons⟩ : Numbering))
      (fun sink => writeLine ⟨roster, some sink, columns, singletons⟩ ideal) (mapLine columns ideal)
      (fun _ => rfl) (fun _ => rfl)
    · intro sink after hput
      simp only [writeLine, hput]
    · intro sink after hput
      simp only [writeLine, hput]

theorem limited_take (numbering : Numbering) (slot : ℕ) :
    Run.Limited outlet limit numbering ((outlet.cut limit numbering).take slot)
      (numbering.take slot) := by
  obtain ⟨roster, map, columns, singletons⟩ := numbering
  rw [cut_mk]
  simp only [take]
  split
  · exact .of_eq rfl rfl rfl
  · split
    next => exact .of_eq rfl rfl rfl
    next ideal _ =>
      apply Run.Limited.afterAll
      apply Run.Limited.next
      · exact Run.Limited.of_start (limited_writeLine ⟨roster.write slot (columns + 1), map, columns,
          if roster.value slot = 1 then singletons + 1 else singletons⟩ ideal) rfl
      · intro written _
        exact .of_eq rfl rfl rfl

end Numbering

/-- The sink of a column map beside its roster. -/
def mapOutlet : Outlet (Roster × Option Sink) where
  sink state := state.2.getD (.empty none)
  modify change state := (state.1, state.2.map change)

theorem limited_renumber (roster : Roster) (map : Option Sink) (limit : ℕ) :
    Run.Limited mapOutlet limit (roster, map) (roster.renumber (map.map (Sink.cut limit)))
      (roster.renumber map) := by
  simp only [renumber]
  cases roster.beginRenumbering with
  | error cause => exact .of_eq rfl rfl rfl
  | ok roster =>
    have hwalk : Run.Limited Numbering.outlet limit ⟨roster, map, 0, 0⟩ _ _ :=
      .each Numbering.limited_take ⟨roster, map, 0, 0⟩ (List.range roster.size)
    refine (hwalk.next fun numbering _ => ?_).within rfl (fun _ => rfl) (fun _ => rfl)
      (fun _ => rfl)
    apply Run.Limited.after
    exact .of_eq rfl rfl rfl

/-- A limit that shows in a map means that there is one. -/
theorem eq_some_of_sink {state : Roster × Option Sink} {sink : Sink} {limit : ℕ}
    (h : mapOutlet.sink state = sink.cut limit) : state.2 = some (sink.cut limit) := by
  obtain ⟨roster, map⟩ := state
  cases map with
  | none =>
    have hlimit := congrArg Sink.limit h
    cases hlimit
  | some map => exact congrArg some h

/-- A renumbering that succeeds gives the columns that it gives without a limit. -/
theorem exists_of_ends_renumber {roster after : Roster} {limits : Option (Option ℕ)}
    {written : Option Sink} {columns : ℕ}
    (hends : (roster.renumber (limits.map Sink.empty)).Ends (after, written) columns) :
    ∃ written', (roster.renumber (limits.map fun _ => .empty none)).Ends (after, written') columns := by
  match limits with
  | none => exact ⟨written, hends⟩
  | some none => exact ⟨written, hends⟩
  | some (some limit) =>
    have hlimited := limited_renumber roster (some (.empty none)) limit
    rw [Option.map_some, Sink.cut_empty] at hlimited
    obtain ⟨⟨after', written'⟩, hfull, -, hcut⟩ :=
      hlimited.exists_of_ends (Sink.fits_empty limit) hends
    obtain rfl : after = after' := congrArg Prod.fst hcut
    exact ⟨written', hfull⟩

end Roster

/-! ## The matrix -/

/-- A sink on its own. -/
def Sink.outlet : Outlet Sink where
  sink := id
  modify change := change

namespace Incidence

namespace Emission

/-- The sink of the matrix. -/
def outlet : Outlet Emission where
  sink := Emission.sink
  modify change emission := { emission with sink := change emission.sink }

variable {limit : ℕ}

theorem cut_mk (sink : Sink) (met rows weight : ℕ) :
    outlet.cut limit ⟨sink, met, rows, weight⟩ = ⟨sink.cut limit, met, rows, weight⟩ := rfl

theorem limited_write (emission : Emission) (text : String) :
    Run.Limited outlet limit emission ((outlet.cut limit emission).write text)
      (emission.write text) := by
  obtain ⟨sink, met, rows, weight⟩ := emission
  apply Run.Limited.put (fun sink => (⟨sink, met, rows, weight⟩ : Emission))
    (fun sink => write ⟨sink, met, rows, weight⟩ text) text (fun _ => rfl) (fun _ => rfl)
  · intro sink after hput
    simp only [write, hput]
  · intro sink after hput
    simp only [write, hput]

theorem limited_writeColumns (roster : Roster) (row : ℕ) (ideals : List Ideal)
    (emission : Emission) :
    Run.Limited outlet limit emission
      (writeColumns roster row (outlet.cut limit emission) ideals)
      (writeColumns roster row emission ideals) := by
  induction ideals generalizing emission with
  | nil => exact limited_write emission "\n"
  | cons ideal rest ih =>
    unfold writeColumns
    split
    · exact .of_eq rfl rfl rfl
    · exact .of_eq rfl rfl rfl
    · exact (limited_write _ _).next fun middle _ => ih middle

theorem limited_writeRow (roster : Roster) (emission : Emission) (row : ℕ) (line : String) :
    Run.Limited outlet limit emission (writeRow roster (outlet.cut limit emission) row line)
      (writeRow roster emission row line) := by
  unfold writeRow
  split
  · exact .of_eq rfl rfl rfl
  · apply (limited_write _ _).next
    intro middle _
    apply (limited_writeColumns roster row _ middle).next
    intro last _
    exact .of_eq rfl rfl rfl

theorem limited_copyRow (emission : Emission) (line : String) :
    Run.Limited outlet limit emission ((outlet.cut limit emission).copyRow line)
      (emission.copyRow line) := by
  apply (limited_write emission _).next
  intro last _
  exact .of_eq rfl rfl rfl

theorem limited_takeLine (emission : Emission) (table : Incidence) (raw : Bool) (line : String) :
    Run.Limited outlet limit emission ((outlet.cut limit emission).takeLine table raw line)
      (emission.takeLine table raw line) := by
  obtain ⟨sink, met, rows, weight⟩ := emission
  rw [cut_mk]
  apply Run.Limited.afterAll
  have hmet (taken taken' : Run Emission Bool)
      (h : Run.Limited outlet limit ⟨sink, met + 1, rows, weight⟩ taken taken') :
      Run.Limited outlet limit ⟨sink, met, rows, weight⟩ taken taken' := h.of_start rfl
  apply hmet
  simp only
  split
  · split
    · exact limited_copyRow ⟨sink, met + 1, rows, weight⟩ line
    · exact limited_writeRow table.roster ⟨sink, met + 1, rows, weight⟩ met line
  · exact .of_eq rfl rfl rfl

theorem limited_take (table : Incidence) (raw : Bool) (emission : Emission) (event : Event) :
    Run.Limited outlet limit emission ((outlet.cut limit emission).take table raw event)
      (emission.take table raw event) := by
  obtain ⟨sink, met, rows, weight⟩ := emission
  rw [cut_mk]
  cases event with
  | opened path =>
    simp only [take]
    apply Run.Limited.after
    exact .of_eq rfl rfl rfl
  | fault cause =>
    simp only [take]
    split
    · exact .of_eq rfl rfl rfl
    · exact .of_eq rfl rfl rfl
  | line line =>
    simp only [take]
    split
    · exact .of_eq rfl rfl rfl
    · exact limited_takeLine ⟨sink, met, rows, weight⟩ table raw line

end Emission

theorem limited_emitHeader (table : Incidence) (sink : Sink) (columns : ℕ) (raw : Bool)
    (limit : ℕ) :
    Run.Limited Sink.outlet limit sink (table.emitHeader (sink.cut limit) columns raw)
      (table.emitHeader sink columns raw) := by
  have hheader : Run.Limited Emission.outlet limit ⟨sink, 0, 0, 0⟩
      (if raw then .done ⟨sink.cut limit, 0, 0, 0⟩ ()
        else (⟨sink.cut limit, 0, 0, 0⟩ : Emission).write s!"{table.liveRows} {columns}\n")
      (if raw then .done ⟨sink, 0, 0, 0⟩ ()
        else (⟨sink, 0, 0, 0⟩ : Emission).write s!"{table.liveRows} {columns}\n") := by
    split
    · exact .of_eq rfl rfl rfl
    · exact Emission.limited_write ⟨sink, 0, 0, 0⟩ _
  exact hheader.within rfl (fun _ => rfl) (fun _ => rfl) (fun _ => rfl)

theorem limited_emitRows (table : Incidence) (events : List Event) (sink : Sink) (raw : Bool)
    (limit : ℕ) :
    Run.Limited Sink.outlet limit sink (table.emitRows events (sink.cut limit) raw)
      (table.emitRows events sink raw) := by
  have hwalk : Run.Limited Emission.outlet limit ⟨sink, 0, 0, 0⟩ _ _ :=
    .each (Emission.limited_take table raw) ⟨sink, 0, 0, 0⟩ events
  refine ((hwalk.after .emitBegins .emitBegins).next ?_).within rfl (fun _ => rfl) (fun _ => rfl)
    (fun _ => rfl)
  intro emission _
  obtain ⟨sink, met, rows, weight⟩ := emission
  rw [Emission.cut_mk]
  simp only
  split
  · exact .of_eq rfl rfl rfl
  · exact .of_eq rfl rfl rfl

/-- The matrix that is written to a sink with a limit is a beginning of the one written without. -/
theorem limited_emit (table : Incidence) (events : List Event) (sink : Sink) (columns : ℕ)
    (raw : Bool) (limit : ℕ) :
    Run.Limited Sink.outlet limit sink (table.emit events (sink.cut limit) columns raw)
      (table.emit events sink columns raw) :=
  (limited_emitHeader table sink columns raw limit).next fun header _ =>
    limited_emitRows table events header raw limit

/-- A matrix that is written with success is the one written without a limit. -/
theorem exists_of_ends_emit {table : Incidence} {events : List Event} {limit : Option ℕ} {sink : Sink}
    {columns : ℕ} {raw : Bool} {summary : EmitSummary}
    (hends : (table.emit events (.empty limit) columns raw).Ends sink summary) :
    ∃ sink', (table.emit events (.empty none) columns raw).Ends sink' summary ∧
      sink'.written = sink.written := by
  cases limit with
  | none => exact ⟨sink, hends, rfl⟩
  | some limit =>
    have hlimited := limited_emit table events (.empty none) columns raw limit
    rw [Sink.cut_empty] at hlimited
    obtain ⟨sink', hfull, hfits, hcut⟩ := hlimited.exists_of_ends (Sink.fits_empty limit) hends
    refine ⟨sink', hfull, ?_⟩
    rw [hcut]
    exact (congrArg Sink.written hfits.cut_eq).symm

end Incidence

end SieveFilter
