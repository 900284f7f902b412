import SieveFilter.Proofs.Arena.Cells

/-!
# Reservations

A ledger follows what is done with an arena: it notes the ranges that were reserved since the last release, and
for a stored list the list, until something is written to its range.  Every sequence of operations that writes
to reserved ranges only leaves ranges that lie in their blocks and do not overlap, and stored lists that are
read back.  One operation keeps the ledger sound, so a sequence of them does.
-/

namespace SieveFilter.Arena

/-- A range that was reserved, and the list that was stored in it, if nothing else was written to it. -/
structure Reservation where
  handle : Handle
  length : ℕ
  list? : Option (List ℕ)
  deriving DecidableEq

namespace Reservation

/-- The cells of a range, each with its block and its position there. -/
def cells (range : Reservation) : List (ℕ × ℕ) :=
  (List.range' range.handle.offset range.length).map fun position => (range.handle.block, position)

/-- A stored list is no longer known to be there once a cell is written to its range. -/
def overwritten (range : Reservation) (cells : List ℕ) : Reservation :=
  if cells = [] then range else { range with list? := none }

/-- The range alone. -/
def unlisted (range : Reservation) : Reservation :=
  { range with list? := none }

/-- The range ends before another one begins. -/
def Before (range later : Reservation) : Prop :=
  range.handle.block < later.handle.block ∨
    range.handle.block = later.handle.block ∧
      range.handle.offset + range.length ≤ later.handle.offset

@[simp] theorem overwritten_handle (range : Reservation) (cells : List ℕ) :
    (range.overwritten cells).handle = range.handle := by
  rw [overwritten]
  split <;> rfl

@[simp] theorem overwritten_length (range : Reservation) (cells : List ℕ) :
    (range.overwritten cells).length = range.length := by
  rw [overwritten]
  split <;> rfl

theorem Before.disjoint {range later : Reservation} (h : range.Before later) :
    range.cells.Disjoint later.cells := by
  intro cell hcell hcell'
  obtain ⟨position, hposition, rfl⟩ := List.mem_map.mp hcell
  obtain ⟨position', hposition', heq⟩ := List.mem_map.mp hcell'
  obtain ⟨hblock, rfl⟩ := Prod.mk.inj heq
  rw [List.mem_range'_1] at hposition hposition'
  rcases h with hlt | ⟨-, hle⟩
  · omega
  · omega

end Reservation

/-- What can be done with an arena.  A write goes to the range that was reserved as number `index` since the
last release, from a position in that range on. -/
inductive Operation where
  | allocate (n : ℕ)
  | store (list : List ℕ)
  | write (index position : ℕ) (cells : List ℕ)
  | release
  deriving DecidableEq

/-- An arena with the ranges reserved since the last release, in order. -/
structure Ledger where
  arena : Arena
  ranges : List Reservation

namespace Ledger

def new (blockCapacity : ℕ) : Ledger :=
  ⟨.new blockCapacity, []⟩

/-- Notes a range, if it was granted. -/
def enter (ledger : Ledger) (length : ℕ) (list? : Option (List ℕ)) (run : Run Arena Handle) : Ledger :=
  match run.outcome with
  | .ok handle => ⟨run.state, ledger.ranges ++ [⟨handle, length, list?⟩]⟩
  | .error _ => ⟨run.state, ledger.ranges⟩

/-- The arena after a write to a part of a range, if all cells of that part are in use. -/
def write? (ledger : Ledger) (index position : ℕ) (cells : List ℕ) : Option Arena :=
  ledger.ranges[index]?.bind fun range => ledger.arena.write? (range.handle.shift position) cells

def apply (ledger : Ledger) : Operation → Ledger
  | .allocate n => ledger.enter n none (ledger.arena.allocate n)
  | .store list => ledger.enter (list.length + 1) (some list) (ledger.arena.store list)
  | .write index position cells =>
    match ledger.write? index position cells with
    | some arena => ⟨arena, ledger.ranges.modify index (·.overwritten cells)⟩
    | none => ledger
  | .release => ⟨ledger.arena.release, []⟩

def execute (ledger : Ledger) (operations : List Operation) : Ledger :=
  operations.foldl apply ledger

/-- Writes are confined to one range. -/
def Allows (ledger : Ledger) : Operation → Prop
  | .write index position cells => ∃ range ∈ ledger.ranges[index]?, position + cells.length ≤ range.length
  | _ => True

/-- Every operation of a sequence is allowed when its turn comes. -/
def Permits : Ledger → List Operation → Prop
  | _, [] => True
  | ledger, operation :: rest => ledger.Allows operation ∧ Permits (ledger.apply operation) rest

instance (ledger : Ledger) (operation : Operation) : Decidable (ledger.Allows operation) :=
  match operation with
  | .write .. => inferInstanceAs (Decidable (∃ _ ∈ _, _))
  | .allocate _ | .store _ | .release => .isTrue trivial

instance decidablePermits :
    (ledger : Ledger) → (operations : List Operation) → Decidable (Permits ledger operations)
  | _, [] => .isTrue trivial
  | ledger, operation :: rest =>
    have := decidablePermits (ledger.apply operation) rest
    inferInstanceAs (Decidable (_ ∧ _))

/-- What holds of a ledger after every sequence of operations. -/
structure Sound (capacity : ℕ) (ledger : Ledger) : Prop where
  capacity_eq : ledger.arena.capacity = capacity
  inside : ∀ range ∈ ledger.ranges, ∃ cells, ledger.arena.cells? range.handle range.length = some cells
  ordered : ledger.ranges.Pairwise Reservation.Before
  stored : ∀ range ∈ ledger.ranges, ∀ list, range.list? = some list →
    ledger.arena.cells? range.handle range.length = some (list ++ [sentinel])
  size_le : ∀ block ∈ ledger.arena.blocks, block.size ≤ capacity
  total_eq : (ledger.arena.blocks.toList.map Array.size).sum =
    (ledger.ranges.map Reservation.length).sum

variable {capacity : ℕ} {ledger : Ledger}

theorem sound_new (blockCapacity : ℕ) : Sound (max blockCapacity 1) (new blockCapacity) :=
  ⟨rfl, by simp [new], .nil, by simp [new], by simp [new, Arena.new], rfl⟩

/-! ## Reservations -/

/-- A range that was granted comes after the others. -/
theorem Sound.before_reserved (h : Sound capacity ledger) {n : ℕ} {after : Arena} {handle : Handle}
    (hreserved : Reserved ledger.arena n after handle) {range : Reservation}
    (hrange : range ∈ ledger.ranges) (list? : Option (List ℕ)) : range.Before ⟨handle, n, list?⟩ := by
  obtain ⟨cells, hcells⟩ := h.inside range hrange
  obtain ⟨block, hblock, hin, -⟩ := cells?_eq_some_iff.mp hcells
  rcases hreserved.later _ block hblock with hlt | ⟨heq, hle⟩
  · exact .inl hlt
  · exact .inr ⟨heq, hin.trans hle⟩

/-- A range that was granted is noted, with the cells that are in it. -/
theorem Sound.reserved (h : Sound capacity ledger) {n : ℕ} {after : Arena} {handle : Handle}
    (hreserved : Reserved ledger.arena n after handle) :
    Sound capacity ⟨after, ledger.ranges ++ [⟨handle, n, none⟩]⟩ where
  capacity_eq := hreserved.capacity_eq.trans h.capacity_eq
  inside := by
    intro range hrange
    rcases List.mem_append.mp hrange with hrange | hrange
    · obtain ⟨cells, hcells⟩ := h.inside range hrange
      exact ⟨cells, cells?_mono hreserved.extends_before hcells⟩
    · rw [List.mem_singleton.mp hrange]
      exact ⟨_, hreserved.fresh⟩
  ordered := by
    refine List.pairwise_append.mpr ⟨h.ordered, List.pairwise_singleton _ _, ?_⟩
    intro range hrange later hlater
    rw [List.mem_singleton.mp hlater]
    exact h.before_reserved hreserved hrange none
  stored := by
    intro range hrange list hlist
    rcases List.mem_append.mp hrange with hrange | hrange
    · exact cells?_mono hreserved.extends_before (h.stored range hrange list hlist)
    · rw [List.mem_singleton.mp hrange] at hlist
      cases hlist
  size_le := by
    have hsmall := hreserved.size_le
    rw [h.capacity_eq] at hsmall
    exact hsmall h.size_le
  total_eq := by
    rw [hreserved.total_eq, h.total_eq, List.map_append, List.sum_append]
    rfl

/-! ## Writes -/

/-- Reservations at different places of the ledger are apart. -/
theorem Sound.apart (h : Sound capacity ledger) {index other : ℕ} {range range' : Reservation}
    (hrange : ledger.ranges[index]? = some range) (hother : ledger.ranges[other]? = some range')
    (hne : index ≠ other) : range.Before range' ∨ range'.Before range := by
  obtain ⟨hin, rfl⟩ := List.getElem?_eq_some_iff.mp hrange
  obtain ⟨hinOther, rfl⟩ := List.getElem?_eq_some_iff.mp hother
  rcases Nat.lt_or_gt_of_ne hne with hlt | hgt
  · exact .inl (List.pairwise_iff_getElem.mp h.ordered index other hin hinOther hlt)
  · exact .inr (List.pairwise_iff_getElem.mp h.ordered other index hinOther hin hgt)

/-- A range whose note is replaced stays where it is. -/
theorem map_set_eq {ranges : List Reservation} {index : ℕ} {range replaced : Reservation}
    (hrange : ranges[index]? = some range) {α : Type} {key : Reservation → α}
    (hkey : key replaced = key range) : (ranges.set index replaced).map key = ranges.map key := by
  obtain ⟨hin, rfl⟩ := List.getElem?_eq_some_iff.mp hrange
  rw [List.map_set, hkey, ← List.getElem_map key (h := by rwa [List.length_map]), List.set_getElem_self]

/-- A write to a range leaves the ledger sound when the note for that range is what can be read there. -/
theorem Sound.written (h : Sound capacity ledger) {index : ℕ} {range : Reservation} (position : ℕ)
    (cells : List ℕ) (replaced : Reservation) (hrange : ledger.ranges[index]? = some range)
    (hpart : position + cells.length ≤ range.length) (hhandle : replaced.handle = range.handle)
    (hlength : replaced.length = range.length)
    (hlist : ∀ list, replaced.list? = some list →
      (ledger.arena.write (range.handle.shift position) cells).cells? range.handle range.length =
        some (list ++ [sentinel])) :
    Sound capacity
      ⟨ledger.arena.write (range.handle.shift position) cells, ledger.ranges.set index replaced⟩ := by
  obtain ⟨old, hold⟩ := h.inside range (List.mem_of_getElem? hrange)
  obtain ⟨part, hpartCells⟩ := exists_cells?_shift hold hpart
  have hsizes := sizes_write ledger.arena (range.handle.shift position) cells
  have hmem {other : Reservation} (hother : other ∈ ledger.ranges.set index replaced) :
      other = replaced ∨ ∃ place, place ≠ index ∧ ledger.ranges[place]? = some other := by
    obtain ⟨place, hplace⟩ := List.mem_iff_getElem?.mp hother
    by_cases hsame : place = index
    · subst hsame
      rw [List.getElem?_set_self (List.getElem?_eq_some_iff.mp hrange).1, Option.some.injEq] at hplace
      exact .inl hplace.symm
    · rw [List.getElem?_set_ne (Ne.symm hsame)] at hplace
      exact .inr ⟨place, hsame, hplace⟩
  constructor
  · exact h.capacity_eq
  · intro other hother
    rw [exists_cells?_iff, hsizes, ← exists_cells?_iff]
    rcases hmem hother with rfl | ⟨place, -, hplace⟩
    · rw [hhandle, hlength]
      exact ⟨old, hold⟩
    · exact h.inside other (List.mem_of_getElem? hplace)
  · have hplaces : (ledger.ranges.set index replaced).map Reservation.unlisted =
        ledger.ranges.map Reservation.unlisted :=
      map_set_eq hrange (by rw [Reservation.unlisted, Reservation.unlisted, hhandle, hlength])
    have hordered : (ledger.ranges.map Reservation.unlisted).Pairwise Reservation.Before :=
      List.pairwise_map.mpr h.ordered
    rw [← hplaces] at hordered
    exact (List.pairwise_map (f := Reservation.unlisted)).mp hordered
  · intro other hother list hfound
    rcases hmem hother with rfl | ⟨place, hne, hplace⟩
    · rw [hhandle, hlength]
      exact hlist list hfound
    · rw [cells?_write_of_apart hpartCells, h.stored other (List.mem_of_getElem? hplace) list hfound]
      simp only [Handle.shift]
      rcases h.apart hplace hrange hne with (hlt | ⟨-, hle⟩) | (hlt | ⟨-, hle⟩)
      · exact .inl (Nat.ne_of_lt hlt)
      · exact .inr (.inl (by omega))
      · exact .inl (Nat.ne_of_gt hlt)
      · exact .inr (.inr (by omega))
  · intro block hblock
    have hsize := Array.mem_map_of_mem (f := Array.size) hblock
    rw [hsizes] at hsize
    obtain ⟨before, hbefore, heq⟩ := Array.mem_map.mp hsize
    exact heq ▸ h.size_le before hbefore
  · have htotal := congrArg (fun sizes : Array ℕ => sizes.toList.sum) hsizes
    simp only [Array.toList_map] at htotal
    rw [map_set_eq hrange hlength, htotal]
    exact h.total_eq

/-! ## One operation -/

theorem Sound.allocate (h : Sound capacity ledger) (hlaid : capacity ≤ maxCapacity) (n : ℕ) :
    Sound capacity (ledger.apply (.allocate n)) := by
  obtain ⟨arena, ranges⟩ := ledger
  simp only [apply, enter]
  by_cases hfits : n ≤ arena.capacity
  · obtain ⟨after, handle, hallocate, hreserved⟩ := exists_reserved hfits (h.capacity_eq ▸ hlaid)
    rw [hallocate]
    exact h.reserved hreserved
  · rw [allocate_of_capacity_lt (Nat.not_le.mp hfits)]
    exact h

/-- A list that a block can hold is stored in a range of its own. -/
theorem store_of_reserved {arena after : Arena} {list : List ℕ} {handle : Handle}
    (hallocate : arena.allocate (list.length + 1) = .done after handle) :
    arena.store list = .done (after.write handle (list ++ [sentinel])) handle := by
  rw [Arena.store, hallocate, Run.next_done]

/-- A stored list and its sentinel are read. -/
theorem cells?_write_stored {arena after : Arena} {list : List ℕ} {handle : Handle}
    (hreserved : Reserved arena (list.length + 1) after handle) :
    (after.write handle (list ++ [sentinel])).cells? handle (list.length + 1) =
      some (list ++ [sentinel]) := by
  have hlength : (list ++ [sentinel]).length = list.length + 1 := List.length_append
  have hfresh := hreserved.fresh
  rw [← hlength] at hfresh ⊢
  exact cells?_write_self hfresh

theorem Sound.store (h : Sound capacity ledger) (hlaid : capacity ≤ maxCapacity) (list : List ℕ) :
    Sound capacity (ledger.apply (.store list)) := by
  obtain ⟨arena, ranges⟩ := ledger
  simp only [apply, enter]
  by_cases hfits : list.length + 1 ≤ arena.capacity
  · obtain ⟨after, handle, hallocate, hreserved⟩ := exists_reserved hfits (h.capacity_eq ▸ hlaid)
    have hlast : (ranges ++ [⟨handle, list.length + 1, none⟩])[ranges.length]? =
        some (⟨handle, list.length + 1, none⟩ : Reservation) := List.getElem?_concat_length
    have hsound := (h.reserved hreserved).written 0 (list ++ [sentinel])
      ⟨handle, list.length + 1, some list⟩ hlast (by simp) rfl rfl (by
        intro other hother
        cases hother
        exact cells?_write_stored hreserved)
    simp only [List.set_append_right _ _ (Nat.le_refl _), Nat.sub_self, List.set_cons_zero] at hsound
    rw [store_of_reserved hallocate]
    exact hsound
  · rw [store_of_capacity_lt (Nat.not_le.mp hfits)]
    exact h

/-- A write that is confined to a range takes place, and is read. -/
theorem Sound.exists_write? (h : Sound capacity ledger) {index position : ℕ} {cells : List ℕ}
    (hallowed : ledger.Allows (.write index position cells)) :
    ∃ range, ledger.ranges[index]? = some range ∧ position + cells.length ≤ range.length ∧
      ledger.write? index position cells =
        some (ledger.arena.write (range.handle.shift position) cells) ∧
      (ledger.arena.write (range.handle.shift position) cells).cells? (range.handle.shift position)
        cells.length = some cells := by
  obtain ⟨range, hrange, hpart⟩ := hallowed
  obtain ⟨old, hold⟩ := h.inside range (List.mem_of_getElem? hrange)
  obtain ⟨part, hpartCells⟩ := exists_cells?_shift hold hpart
  refine ⟨range, hrange, hpart, ?_, cells?_write_self hpartCells⟩
  rw [Ledger.write?, hrange, Option.bind_some, write?_eq hpartCells]

theorem Sound.write (h : Sound capacity ledger) {index position : ℕ} {cells : List ℕ}
    (hallowed : ledger.Allows (.write index position cells)) :
    Sound capacity (ledger.apply (.write index position cells)) := by
  obtain ⟨range, hrange, hpart, hwrite, -⟩ := h.exists_write? hallowed
  have hmodify : ledger.ranges.modify index (·.overwritten cells) =
      ledger.ranges.set index (range.overwritten cells) := by
    rw [List.modify_eq_set_getElem?, hrange]
    rfl
  simp only [apply, hwrite, hmodify]
  refine h.written position cells _ hrange hpart (range.overwritten_handle cells)
    (range.overwritten_length cells) ?_
  intro list hlist
  rw [Reservation.overwritten] at hlist
  split at hlist
  next hnone =>
    rw [hnone, write_nil]
    exact h.stored range (List.mem_of_getElem? hrange) list hlist
  next => cases hlist

theorem Sound.release (h : Sound capacity ledger) : Sound capacity (ledger.apply .release) :=
  ⟨h.capacity_eq, by simp [apply], .nil, by simp [apply], by simp [apply, Arena.release], rfl⟩

theorem Sound.apply (h : Sound capacity ledger) (hlaid : capacity ≤ maxCapacity) {operation : Operation}
    (hallowed : ledger.Allows operation) : Sound capacity (ledger.apply operation) := by
  cases operation with
  | allocate n => exact h.allocate hlaid n
  | store list => exact h.store hlaid list
  | write index position cells => exact h.write hallowed
  | release => exact h.release

theorem Sound.execute (operations : List Operation) (h : Sound capacity ledger)
    (hlaid : capacity ≤ maxCapacity) (hpermits : Permits ledger operations) :
    Sound capacity (ledger.execute operations) := by
  induction operations generalizing ledger with
  | nil => exact h
  | cons operation rest ih => exact ih (h.apply hlaid hpermits.1) hpermits.2

/-! ## Sequences of operations -/

/-- The ranges of a ledger lie inside their blocks and do not overlap, lists are read back, and the blocks hold
no more cells than they may and just those that were reserved. -/
structure Orderly (capacity : ℕ) (ledger : Ledger) : Prop where
  inside : ∀ range ∈ ledger.ranges, ∃ block, ledger.arena.blocks[range.handle.block]? = some block ∧
    range.handle.offset + range.length ≤ block.size
  disjoint : ledger.ranges.Pairwise fun range other => range.cells.Disjoint other.cells
  list?_eq : ∀ range ∈ ledger.ranges, ∀ list, range.list? = some list → sentinel ∉ list →
    ledger.arena.list? range.handle = some list
  size_le : ∀ block ∈ ledger.arena.blocks, block.size ≤ capacity
  total_eq : (ledger.arena.blocks.toList.map Array.size).sum =
    (ledger.ranges.map Reservation.length).sum

theorem Sound.orderly (h : Sound capacity ledger) : Orderly capacity ledger where
  inside := by
    intro range hrange
    obtain ⟨cells, hcells⟩ := h.inside range hrange
    obtain ⟨block, hblock, hin, -⟩ := cells?_eq_some_iff.mp hcells
    exact ⟨block, hblock, hin⟩
  disjoint := h.ordered.imp Reservation.Before.disjoint
  list?_eq := by
    intro range hrange list hlist hplain
    have hcells := h.stored range hrange list hlist
    have hlength := length_of_cells? hcells
    rw [List.length_append, List.length_singleton] at hlength
    exact (holds_of_cells? (hlength ▸ hcells) hplain).list?_eq
  size_le := h.size_le
  total_eq := h.total_eq

/-- After every sequence of operations that writes to reserved ranges only, the ledger is in order.  A request
is refused exactly when no block can hold it, and then changes nothing; otherwise it is granted zero cells, or
the cells of a list with its sentinel; and a write to a part of a range is read there. -/
theorem execute_orderly {blockCapacity : ℕ} (hcapacity : blockCapacity ≤ 2 ^ 32)
    {operations : List Operation} (hpermits : Permits (new blockCapacity) operations) :
    let ledger := (new blockCapacity).execute operations
    let capacity := max blockCapacity 1
    Orderly capacity ledger ∧
      (∀ n, capacity < n → ledger.arena.allocate n = .fail ledger.arena (.listTooLong n capacity)) ∧
      (∀ n ≤ capacity, ∃ after handle, ledger.arena.allocate n = .done after handle ∧
        after.cells? handle n = some (List.replicate n 0)) ∧
      (∀ list, capacity < list.length + 1 →
        ledger.arena.store list = .fail ledger.arena (.listTooLong (list.length + 1) capacity)) ∧
      (∀ list, list.length + 1 ≤ capacity → ∃ after handle,
        ledger.arena.store list = .done after handle ∧
        after.cells? handle (list.length + 1) = some (list ++ [sentinel])) ∧
      ∀ index position cells, ledger.Allows (.write index position cells) → ∃ range after,
        ledger.ranges[index]? = some range ∧ ledger.write? index position cells = some after ∧
        after.cells? (range.handle.shift position) cells.length = some cells := by
  intro ledger capacity
  have hlaid : capacity ≤ maxCapacity := (max_le hcapacity (by decide)).trans (by decide)
  have hsound : Sound capacity ledger := (sound_new blockCapacity).execute operations hlaid hpermits
  have hlaidArena : ledger.arena.capacity ≤ maxCapacity := hsound.capacity_eq ▸ hlaid
  refine ⟨hsound.orderly, ?_, ?_, ?_, ?_, ?_⟩
  · intro n hlong
    rw [← hsound.capacity_eq] at hlong ⊢
    exact allocate_of_capacity_lt hlong
  · intro n hfits
    rw [← hsound.capacity_eq] at hfits
    obtain ⟨after, handle, hallocate, hreserved⟩ := exists_reserved hfits hlaidArena
    exact ⟨after, handle, hallocate, hreserved.fresh⟩
  · intro list hlong
    rw [← hsound.capacity_eq] at hlong ⊢
    exact store_of_capacity_lt hlong
  · intro list hfits
    rw [← hsound.capacity_eq] at hfits
    obtain ⟨after, handle, hallocate, hreserved⟩ := exists_reserved hfits hlaidArena
    exact ⟨_, handle, store_of_reserved hallocate, cells?_write_stored hreserved⟩
  · intro index position cells hallowed
    obtain ⟨range, hrange, -, hwrite, hread⟩ := hsound.exists_write? hallowed
    exact ⟨range, _, hrange, hwrite, hread⟩

/-- Two lists, an empty range and a range that is written to, in two blocks, and two requests that are too
large. -/
def sampleOperations : List Operation :=
  [.store [1], .release, .store [7, 8], .allocate 0, .allocate 2, .write 2 1 [9], .store [5], .allocate 5,
    .store [1, 2, 3, 4]]

theorem execute_orderly_sample :
    Permits (new 4) sampleOperations ∧
      ((new 4).execute sampleOperations).ranges =
        [⟨⟨0, 0⟩, 3, some [7, 8]⟩, ⟨⟨0, 3⟩, 0, none⟩, ⟨⟨1, 0⟩, 2, none⟩, ⟨⟨1, 2⟩, 2, some [5]⟩] ∧
      ((new 4).execute sampleOperations).arena.list? ⟨0, 0⟩ = some [7, 8] := by
  have hpermits : Permits (new 4) sampleOperations := by decide
  have hranges : ((new 4).execute sampleOperations).ranges =
      [⟨⟨0, 0⟩, 3, some [7, 8]⟩, ⟨⟨0, 3⟩, 0, none⟩, ⟨⟨1, 0⟩, 2, none⟩, ⟨⟨1, 2⟩, 2, some [5]⟩] := by
    decide
  refine ⟨hpermits, hranges, ?_⟩
  obtain ⟨horderly, -⟩ := execute_orderly (by decide : 4 ≤ 2 ^ 32) hpermits
  exact horderly.list?_eq ⟨⟨0, 0⟩, 3, some [7, 8]⟩ (hranges ▸ List.mem_cons_self) [7, 8] rfl (by decide)

end Ledger

end SieveFilter.Arena
