import SieveFilter.Proofs.Arena.Storage
import Mathlib.Algebra.GroupWithZero.Nat

/-!
# Cells of an arena

What a reservation and a write do to the cells in use.  A reservation appends zero cells to the last block or to
a new one, and touches no other cells.  A write to cells that are in use replaces these and no others.
-/

namespace SieveFilter.Arena

/-- The handle some cells further on. -/
def Handle.shift (handle : Handle) (position : ℕ) : Handle :=
  ⟨handle.block, handle.offset + position⟩

/-! ## Reading a range -/

/-- The cells of a range are read when its block has so many. -/
theorem cells?_eq_some_iff {arena : Arena} {handle : Handle} {n : ℕ} {cells : List ℕ} :
    arena.cells? handle n = some cells ↔
      ∃ block, arena.blocks[handle.block]? = some block ∧ handle.offset + n ≤ block.size ∧
        (block.toList.drop handle.offset).take n = cells := by
  simp only [cells?]
  cases hblock : arena.blocks[handle.block]? with
  | none => simp
  | some block =>
    by_cases hin : handle.offset + n ≤ block.size
    · simp [hin, List.extract_eq_take_drop]
    · simp [hin]

theorem length_of_cells? {arena : Arena} {handle : Handle} {n : ℕ} {cells : List ℕ}
    (h : arena.cells? handle n = some cells) : cells.length = n := by
  obtain ⟨block, -, hin, rfl⟩ := cells?_eq_some_iff.mp h
  simp only [List.length_take, List.length_drop, Array.length_toList]
  omega

/-- Cells in use stay as they are while blocks only grow. -/
theorem cells?_mono {before after : Arena} (hext : Extends before after) {handle : Handle} {n : ℕ}
    {cells : List ℕ} (h : before.cells? handle n = some cells) :
    after.cells? handle n = some cells := by
  obtain ⟨block, hblock, hin, rfl⟩ := cells?_eq_some_iff.mp h
  obtain ⟨grown, hgrown, rest, hrest⟩ := hext handle.block block hblock
  have hsize : grown.size = block.size + rest.length := by
    rw [← Array.length_toList, ← hrest, List.length_append, Array.length_toList]
  refine cells?_eq_some_iff.mpr ⟨grown, hgrown, by omega, ?_⟩
  rw [← hrest, List.drop_append_of_le_length (by rw [Array.length_toList]; omega),
    List.take_append_of_le_length (by rw [List.length_drop, Array.length_toList]; omega)]

/-- A part of a range can be read where the range can. -/
theorem exists_cells?_shift {arena : Arena} {handle : Handle} {n position count : ℕ} {cells : List ℕ}
    (h : arena.cells? handle n = some cells) (hpart : position + count ≤ n) :
    ∃ part, arena.cells? (handle.shift position) count = some part := by
  obtain ⟨block, hblock, hin, -⟩ := cells?_eq_some_iff.mp h
  have hpartIn : handle.offset + position + count ≤ block.size := by omega
  exact ⟨_, cells?_eq_some_iff.mpr ⟨block, hblock, hpartIn, rfl⟩⟩

/-- A range that has the cells of a list and its sentinel holds that list. -/
theorem holds_of_cells? {arena : Arena} {handle : Handle} {list : List ℕ}
    (h : arena.cells? handle (list.length + 1) = some (list ++ [sentinel])) (hplain : sentinel ∉ list) :
    Holds arena handle list := by
  obtain ⟨block, hblock, -, hcells⟩ := cells?_eq_some_iff.mp h
  exact ⟨block, hblock, hcells ▸ List.take_prefix _ _, hplain⟩

/-- Whether a range can be read is known from the sizes of the blocks. -/
theorem exists_cells?_iff {arena : Arena} {handle : Handle} {n : ℕ} :
    (∃ cells, arena.cells? handle n = some cells) ↔
      ∃ size, (arena.blocks.map Array.size)[handle.block]? = some size ∧ handle.offset + n ≤ size := by
  simp only [cells?_eq_some_iff, Array.getElem?_map, Option.map_eq_some_iff]
  constructor
  · rintro ⟨cells, block, hblock, hin, -⟩
    exact ⟨block.size, ⟨block, hblock, rfl⟩, hin⟩
  · rintro ⟨_, ⟨block, hblock, rfl⟩, hin⟩
    exact ⟨_, block, hblock, hin, rfl⟩

/-! ## Reserving -/

theorem tip_push (capacity : ℕ) (front : Array (Array ℕ)) (last : Array ℕ) :
    tip ⟨capacity, front.push last⟩ = last.size := by
  simp [tip]

theorem grow_push (capacity : ℕ) (front : Array (Array ℕ)) (last : Array ℕ) (n : ℕ) :
    grow ⟨capacity, front.push last⟩ n = ⟨capacity, front.push (last ++ Array.replicate n 0)⟩ := by
  rw [grow, Arena.mk.injEq]
  refine ⟨rfl, ?_⟩
  apply Array.ext_getElem?
  intro index
  rw [Array.getElem?_modify, Array.size_push, Nat.add_sub_cancel, Array.getElem?_push, Array.getElem?_push]
  by_cases hlast : index = front.size
  · rw [if_pos hlast.symm, if_pos hlast, if_pos hlast, Option.map_some]
  · rw [if_neg (Ne.symm hlast), if_neg hlast, if_neg hlast]

/-- The block that takes the cells is the last one, or a new one. -/
theorem exists_withRoom {capacity n : ℕ} (blocks : Array (Array ℕ)) (hfits : n ≤ capacity) :
    ∃ front last, last.size + n ≤ capacity ∧ (blocks = front.push last ∨ blocks = front ∧ last = #[]) ∧
      withRoom ⟨capacity, blocks⟩ n = ⟨capacity, front.push last⟩ := by
  by_cases hneeds : needsBlock ⟨capacity, blocks⟩ n = true
  · exact ⟨blocks, #[], by simpa using hfits, .inr ⟨rfl, rfl⟩, by rw [withRoom, if_pos hneeds]⟩
  · have hroom : blocks.size ≠ 0 ∧ tip ⟨capacity, blocks⟩ + n ≤ capacity := by
      simpa [needsBlock] using hneeds
    obtain ⟨front, last, rfl⟩ := Array.eq_push_of_size_ne_zero hroom.1
    rw [tip_push] at hroom
    exact ⟨front, last, hroom.2, .inl rfl, by rw [withRoom, if_neg hneeds]⟩

/-- A reservation appends zero cells to the last block, if they fit into it, and otherwise to a new one. -/
theorem exists_allocate {capacity n : ℕ} (blocks : Array (Array ℕ)) (hfits : n ≤ capacity)
    (hlaid : capacity ≤ maxCapacity) :
    ∃ front last, last.size + n ≤ capacity ∧ (blocks = front.push last ∨ blocks = front ∧ last = #[]) ∧
      allocate ⟨capacity, blocks⟩ n =
        .done ⟨capacity, front.push (last ++ Array.replicate n 0)⟩ ⟨front.size, last.size⟩ := by
  obtain ⟨front, last, hroom, hblocks, hwithRoom⟩ := exists_withRoom blocks hfits
  refine ⟨front, last, hroom, hblocks, ?_⟩
  have hopens : (needsBlock ⟨capacity, blocks⟩ n && decide (maxCapacity < capacity)) = false := by
    simp [Nat.not_lt.mpr hlaid]
  simp only [allocate, if_neg (Nat.not_lt.mpr hfits), hopens, Bool.false_eq_true, if_false, hwithRoom,
    grow_push, tip_push, Array.size_push, Nat.add_sub_cancel]

/-- A request that no block can hold is refused and changes nothing. -/
theorem allocate_of_capacity_lt {arena : Arena} {n : ℕ} (hlong : arena.capacity < n) :
    arena.allocate n = .fail arena (.listTooLong n arena.capacity) := by
  rw [allocate, if_pos hlong]

/-- An arena with a range of new cells, which come after all others. -/
structure Reserved (before : Arena) (n : ℕ) (after : Arena) (handle : Handle) : Prop where
  capacity_eq : after.capacity = before.capacity
  extends_before : Extends before after
  fresh : after.cells? handle n = some (List.replicate n 0)
  later : ∀ (index : ℕ) block, before.blocks[index]? = some block →
    index < handle.block ∨ index = handle.block ∧ block.size ≤ handle.offset
  size_le : (∀ block ∈ before.blocks, block.size ≤ before.capacity) →
    ∀ block ∈ after.blocks, block.size ≤ before.capacity
  total_eq : (after.blocks.toList.map Array.size).sum = (before.blocks.toList.map Array.size).sum + n

/-- A request that a block can hold is granted. -/
theorem exists_reserved {arena : Arena} {n : ℕ} (hfits : n ≤ arena.capacity)
    (hlaid : arena.capacity ≤ maxCapacity) :
    ∃ after handle, arena.allocate n = .done after handle ∧ Reserved arena n after handle := by
  obtain ⟨capacity, blocks⟩ := arena
  obtain ⟨front, last, hroom, hblocks, hallocate⟩ := exists_allocate blocks hfits hlaid
  have hfound (index : ℕ) (block : Array ℕ) (h : blocks[index]? = some block) :
      index < front.size ∧ front[index]? = some block ∨ index = front.size ∧ block = last := by
    have hpush : (front.push last)[index]? = some block := by
      rcases hblocks with rfl | ⟨rfl, -⟩
      · exact h
      · rwa [Array.getElem?_push_lt (Array.getElem?_eq_some_iff.mp h).1,
          ← Array.getElem?_eq_getElem (Array.getElem?_eq_some_iff.mp h).1]
    rw [Array.getElem?_push] at hpush
    split at hpush
    next hlast => exact .inr ⟨hlast, (Option.some.inj hpush).symm⟩
    next => exact .inl ⟨(Array.getElem?_eq_some_iff.mp hpush).1, hpush⟩
  refine ⟨_, _, hallocate, rfl, ?_, ?_, ?_, ?_, ?_⟩
  · intro index block h
    rcases hfound index block h with ⟨hin, hfront⟩ | ⟨rfl, rfl⟩
    · refine ⟨block, ?_, List.prefix_refl _⟩
      rw [Array.getElem?_push, if_neg (Nat.ne_of_lt hin), hfront]
    · exact ⟨block ++ Array.replicate n 0, Array.getElem?_push_size, by simp⟩
  · refine cells?_eq_some_iff.mpr ⟨_, Array.getElem?_push_size, ?_, ?_⟩
    · rw [Array.size_append, Array.size_replicate]
    · simp
  · intro index block h
    rcases hfound index block h with ⟨hin, -⟩ | ⟨rfl, rfl⟩
    · exact .inl hin
    · exact .inr ⟨rfl, Nat.le_refl _⟩
  · intro hsmall block hblock
    rcases Array.mem_push.mp hblock with hfront | rfl
    · apply hsmall
      rcases hblocks with rfl | ⟨rfl, -⟩
      · exact Array.mem_push.mpr (.inl hfront)
      · exact hfront
    · rw [Array.size_append, Array.size_replicate]
      exact hroom
  · rcases hblocks with rfl | ⟨rfl, rfl⟩
    · simp [Nat.add_assoc]
    · simp

/-! ## Writing -/

@[simp] theorem size_writeCells (block : Array ℕ) (offset : ℕ) (cells : List ℕ) :
    (writeCells block offset cells).size = block.size := by
  induction cells generalizing block offset with
  | nil => rfl
  | cons cell rest ih => rw [writeCells, ih, Array.size_setIfInBounds]

/-- A write replaces the cells from its offset on, as many as it has. -/
theorem getElem?_writeCells {block : Array ℕ} {offset : ℕ} {cells : List ℕ}
    (hin : offset + cells.length ≤ block.size) (position : ℕ) :
    (writeCells block offset cells)[position]? =
      if offset ≤ position ∧ position < offset + cells.length then cells[position - offset]?
      else block[position]? := by
  induction cells generalizing block offset with
  | nil =>
    rw [writeCells, if_neg]
    simp only [List.length_nil]
    omega
  | cons cell rest ih =>
    rw [List.length_cons] at hin ⊢
    rw [writeCells, ih (by rw [Array.size_setIfInBounds]; omega), Array.getElem?_setIfInBounds]
    rcases Nat.lt_trichotomy position offset with hlt | rfl | hgt
    · rw [if_neg (by omega), if_neg (by omega), if_neg (by omega)]
    · rw [if_neg (by omega), if_pos rfl, if_pos (by omega), if_pos (by omega), Nat.sub_self]
      rfl
    · obtain ⟨later, rfl⟩ : ∃ later, position = offset + 1 + later := ⟨position - (offset + 1), by omega⟩
      have hnext : offset + 1 + later - offset = later + 1 := by omega
      rw [if_neg (by omega : offset ≠ offset + 1 + later), hnext, Nat.add_sub_cancel_left,
        List.getElem?_cons_succ]
      exact if_congr (by omega) rfl rfl

theorem getElem?_write {arena : Arena} {handle : Handle} {block : Array ℕ}
    (hblock : arena.blocks[handle.block]? = some block) (cells : List ℕ) :
    (arena.write handle cells).blocks[handle.block]? = some (writeCells block handle.offset cells) := by
  simp only [write, Array.getElem?_modify, hblock, if_true, Option.map_some]

theorem write_nil (arena : Arena) (handle : Handle) : arena.write handle [] = arena := by
  have hblocks : arena.blocks.modify handle.block (writeCells · handle.offset []) = arena.blocks := by
    apply Array.ext_getElem?
    intro index
    rw [Array.getElem?_modify]
    split
    · exact Option.map_id'
    · rfl
  rw [write, hblocks]

/-- A write changes no block's size. -/
theorem sizes_write (arena : Arena) (handle : Handle) (cells : List ℕ) :
    (arena.write handle cells).blocks.map Array.size = arena.blocks.map Array.size := by
  apply Array.ext_getElem?
  intro index
  simp only [write, Array.getElem?_map, Array.getElem?_modify]
  cases arena.blocks[index]? with
  | none => simp
  | some block =>
    split
    · simp
    · rfl

section

variable {arena : Arena} {handle : Handle} {cells old : List ℕ}
  (h : arena.cells? handle cells.length = some old)

include h

/-- What was written is read. -/
theorem cells?_write_self : (arena.write handle cells).cells? handle cells.length = some cells := by
  obtain ⟨block, hblock, hin, -⟩ := cells?_eq_some_iff.mp h
  refine cells?_eq_some_iff.mpr ⟨_, getElem?_write hblock cells, ?_, ?_⟩
  · rwa [size_writeCells]
  · apply List.ext_getElem?
    intro position
    rw [List.getElem?_take, List.getElem?_drop, Array.getElem?_toList, getElem?_writeCells hin]
    by_cases hposition : position < cells.length
    · rw [if_pos hposition, if_pos (by omega), Nat.add_sub_cancel_left]
    · rw [if_neg hposition, List.getElem?_eq_none (Nat.not_lt.mp hposition)]

/-- A range apart from the cells that were written is read as before. -/
theorem cells?_write_of_apart {other : Handle} {n : ℕ}
    (hapart : other.block ≠ handle.block ∨ other.offset + n ≤ handle.offset ∨
      handle.offset + cells.length ≤ other.offset) :
    (arena.write handle cells).cells? other n = arena.cells? other n := by
  obtain ⟨block, hblock, hin, -⟩ := cells?_eq_some_iff.mp h
  by_cases hsame : other.block = handle.block
  · have hposition (position : ℕ) (hlt : position < n) :
        (writeCells block handle.offset cells)[other.offset + position]? =
          block[other.offset + position]? := by
      rw [getElem?_writeCells hin, if_neg (by omega)]
    have hcells : ((writeCells block handle.offset cells).toList.drop other.offset).take n =
        (block.toList.drop other.offset).take n := by
      apply List.ext_getElem?
      intro position
      simp only [List.getElem?_take, List.getElem?_drop, Array.getElem?_toList]
      by_cases hlt : position < n
      · rw [if_pos hlt, if_pos hlt, hposition position hlt]
      · rw [if_neg hlt, if_neg hlt]
    simp only [cells?, hsame, getElem?_write hblock, hblock, size_writeCells, Array.toList_extract,
      List.extract_eq_take_drop, Nat.add_sub_cancel_left, hcells]
  · have hother : (arena.write handle cells).blocks[other.block]? = arena.blocks[other.block]? := by
      simp [write, Array.getElem?_modify, Ne.symm hsame]
    simp only [cells?, hother]

/-- A write to cells in use takes place. -/
theorem write?_eq : arena.write? handle cells = some (arena.write handle cells) := by
  rw [write?, h, Option.map_some]

end

end SieveFilter.Arena
