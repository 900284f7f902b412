import SieveFilter.Arena
import SieveFilter.Proofs.Support.Runs
import Mathlib.Data.List.Infix

/-!
# Storage of lists

A stored list is read back from its handle, up to the sentinel, as long as the blocks of the arena only
grow.  Storing a further list only appends cells to a block or opens a new one, so it disturbs no list
that was stored before.
-/

namespace SieveFilter.Arena

/-- The cells from a handle on are the cells of a list and the sentinel that ends it. -/
def Holds (arena : Arena) (handle : Handle) (list : List ℕ) : Prop :=
  ∃ block, arena.blocks[handle.block]? = some block ∧
    list ++ [sentinel] <+: block.toList.drop handle.offset ∧ sentinel ∉ list

/-- Every block is still there, and has at most grown. -/
def Extends (before after : Arena) : Prop :=
  ∀ (index : ℕ) (block : Array ℕ), before.blocks[index]? = some block →
    ∃ grown : Array ℕ, after.blocks[index]? = some grown ∧ block.toList <+: grown.toList

theorem Extends.trans {first second third : Arena} (h : Extends first second)
    (h' : Extends second third) : Extends first third := by
  intro index block hblock
  obtain ⟨grown, hgrown, hbegins⟩ := h index block hblock
  obtain ⟨final, hfinal, hbegins'⟩ := h' index grown hgrown
  exact ⟨final, hfinal, hbegins.trans hbegins'⟩

/-- A stored list stays where it is while blocks only grow. -/
theorem Holds.mono {before after : Arena} {handle : Handle} {list : List ℕ}
    (h : Holds before handle list) (hext : Extends before after) : Holds after handle list := by
  obtain ⟨block, hblock, hcells, hplain⟩ := h
  obtain ⟨grown, hgrown, hbegins⟩ := hext handle.block block hblock
  exact ⟨grown, hgrown, hcells.trans (hbegins.drop handle.offset), hplain⟩

/-! ## Reading -/

theorem lt_size_of_prefix_drop {block : Array ℕ} {position cell : ℕ} {rest : List ℕ}
    (h : cell :: rest <+: block.toList.drop position) :
    ∃ hin : position < block.size, block[position] = cell ∧
      rest <+: block.toList.drop (position + 1) := by
  have hin : position < block.size := by
    by_contra hout
    rw [List.drop_eq_nil_of_le (by simpa using hout)] at h
    exact absurd (List.prefix_nil.mp h) (List.cons_ne_nil _ _)
  rw [List.drop_eq_getElem_cons (by simpa using hin), List.cons_prefix_cons] at h
  exact ⟨hin, h.1.symm, h.2⟩

/-- The end of a list is found at its sentinel. -/
theorem listEnd_eq {block : Array ℕ} {list : List ℕ} {position : ℕ}
    (hcells : list ++ [sentinel] <+: block.toList.drop position) (hplain : sentinel ∉ list) :
    listEnd block position = position + list.length := by
  induction list generalizing position with
  | nil =>
    obtain ⟨hin, hcell, -⟩ := lt_size_of_prefix_drop hcells
    rw [listEnd, dif_pos hin, if_pos hcell]
    rfl
  | cons cell rest ih =>
    obtain ⟨hin, hcell, hrest⟩ := lt_size_of_prefix_drop hcells
    obtain ⟨hne, hplain⟩ := not_or.mp fun h => hplain (List.mem_cons.mpr h)
    rw [listEnd, dif_pos hin, if_neg fun heq => hne (heq.symm.trans hcell), ih hrest hplain,
      List.length_cons]
    omega

/-- A list that is stored is read back. -/
theorem Holds.list?_eq {arena : Arena} {handle : Handle} {list : List ℕ}
    (h : Holds arena handle list) : arena.list? handle = some list := by
  obtain ⟨block, hblock, hcells, hplain⟩ := h
  have hoffset : handle.offset ≤ block.size := by
    cases list with
    | nil => exact (lt_size_of_prefix_drop hcells).choose.le
    | cons cell rest => exact (lt_size_of_prefix_drop hcells).choose.le
  have hbegins : list <+: block.toList.drop handle.offset :=
    (List.prefix_append list [sentinel]).trans hcells
  simp only [list?, hblock, if_pos hoffset, listEnd_eq hcells hplain, Array.toList_extract,
    List.extract_eq_take_drop, Nat.add_sub_cancel_left]
  exact congrArg some (List.prefix_iff_eq_take.mp hbegins).symm

theorem Holds.list_eq {arena : Arena} {handle : Handle} {list : List ℕ}
    (h : Holds arena handle list) : arena.list handle = list := by
  rw [Arena.list, h.list?_eq, Option.getD_some]

/-! ## Storing -/

/-- The arena with cells appended to its last block. -/
def appendCells (arena : Arena) (cells : List ℕ) : Arena :=
  { arena with
    blocks := arena.blocks.modify (arena.blocks.size - 1) (· ++ cells.toArray) }

/-- Overwriting fresh zero cells at the end of a block appends to the block. -/
theorem writeCells_append_replicate (block : Array ℕ) (cells : List ℕ) :
    writeCells (block ++ Array.replicate cells.length 0) block.size cells =
      block ++ cells.toArray := by
  induction cells generalizing block with
  | nil => simp [writeCells]
  | cons cell rest ih =>
    have hset : (block ++ Array.replicate (rest.length + 1) 0).setIfInBounds block.size cell =
        block.push cell ++ Array.replicate rest.length 0 := by
      apply Array.toList_inj.mp
      simp [List.replicate_succ]
    have hrest := ih (block.push cell)
    rw [Array.size_push] at hrest
    rw [List.length_cons, writeCells, hset, hrest]
    apply Array.toList_inj.mp
    simp

theorem write_grow {arena : Arena} (cells : List ℕ) (hblocks : arena.blocks.size ≠ 0) :
    (arena.grow cells.length).write ⟨arena.blocks.size - 1, arena.tip⟩ cells =
      arena.appendCells cells := by
  obtain ⟨capacity, blocks⟩ := arena
  have hlast : blocks.size - 1 < blocks.size := by
    simp only at hblocks
    omega
  have htip : tip ⟨capacity, blocks⟩ = (blocks[blocks.size - 1]).size := by
    simp [tip, Array.back?, hlast]
  simp only [grow, write, appendCells, htip, Arena.mk.injEq, true_and]
  apply Array.ext_getElem?
  intro index
  simp only [Array.getElem?_modify]
  by_cases heq : blocks.size - 1 = index
  · subst heq
    simp [hlast, writeCells_append_replicate]
  · simp [heq]

theorem size_withRoom_ne_zero (arena : Arena) (n : ℕ) : (arena.withRoom n).blocks.size ≠ 0 := by
  simp only [withRoom]
  split
  next => simp
  next hroom =>
    intro hzero
    simp [needsBlock, Array.size_eq_zero_iff.mp hzero] at hroom

theorem extends_withRoom (arena : Arena) (n : ℕ) : Extends arena (arena.withRoom n) := by
  intro index block hblock
  refine ⟨block, ?_, List.prefix_refl _⟩
  have hin : index < arena.blocks.size := (Array.getElem?_eq_some_iff.mp hblock).1
  simp only [withRoom]
  split
  · rwa [Array.getElem?_push_lt hin, ← Array.getElem?_eq_getElem hin]
  · exact hblock

theorem extends_appendCells (arena : Arena) (cells : List ℕ) :
    Extends arena (arena.appendCells cells) := by
  intro index block hblock
  simp only [appendCells, Array.getElem?_modify, hblock]
  split
  · exact ⟨_, rfl, by simp⟩
  · exact ⟨block, rfl, List.prefix_refl _⟩

theorem holds_appendCells {arena : Arena} {list : List ℕ} (hblocks : arena.blocks.size ≠ 0)
    (hplain : sentinel ∉ list) :
    Holds (arena.appendCells (list ++ [sentinel])) ⟨arena.blocks.size - 1, arena.tip⟩ list := by
  obtain ⟨capacity, blocks⟩ := arena
  have hlast : blocks.size - 1 < blocks.size := by
    simp only at hblocks
    omega
  have htip : tip ⟨capacity, blocks⟩ = (blocks[blocks.size - 1]).size := by
    simp [tip, Array.back?, hlast]
  refine ⟨blocks[blocks.size - 1] ++ (list ++ [sentinel]).toArray, ?_, ?_, hplain⟩
  · rw [appendCells, Array.getElem?_modify, if_pos rfl, Array.getElem?_eq_getElem hlast,
      Option.map_some]
  · simp [htip]

/-- Storing a list fails, and changes nothing, when no block can hold the list and its sentinel. -/
theorem store_of_capacity_lt {arena : Arena} {list : List ℕ}
    (hlong : arena.capacity < list.length + 1) :
    arena.store list = .fail arena (.listTooLong (list.length + 1) arena.capacity) := by
  rw [store, allocate, if_pos hlong, Run.next_fail]

/-- Storing fails for a list that is too long for a block, and where no block can be laid out; it then changes
nothing. -/
theorem fails_store {arena after : Arena} {list : List ℕ} {cause : Failure}
    (h : (arena.store list).Fails after cause) :
    after = arena ∧
      (arena.capacity < list.length + 1 ∧
          cause = .listTooLong (list.length + 1) arena.capacity ∨
        maxCapacity < arena.capacity ∧ cause = .breakdown) := by
  simp only [store, Run.fails_next, Run.not_fails_done, and_false, exists_false, or_false] at h
  simp only [allocate] at h
  split at h
  next hlong =>
    obtain ⟨rfl, rfl⟩ := Run.fails_fail.mp h
    exact ⟨rfl, .inl ⟨hlong, rfl⟩⟩
  next =>
    split at h
    next hlaid =>
      obtain ⟨rfl, rfl⟩ := Run.fails_fail.mp h
      exact ⟨rfl, .inr ⟨of_decide_eq_true (Bool.and_eq_true_iff.mp hlaid).2, rfl⟩⟩
    next => exact absurd h Run.not_fails_done

/-- A list that a block can hold is stored, and no list stored before is disturbed. -/
theorem store_of_le_capacity (arena : Arena) (list : List ℕ)
    (hfits : list.length + 1 ≤ arena.capacity) (hlaid : arena.capacity ≤ maxCapacity)
    (hplain : sentinel ∉ list) :
    ∃ after handle, arena.store list = .done after handle ∧ after.capacity = arena.capacity ∧
      Extends arena after ∧ Holds after handle list := by
  have hblocks := size_withRoom_ne_zero arena (list.length + 1)
  have hcells : (list ++ [sentinel]).length = list.length + 1 := by simp
  refine ⟨(arena.withRoom (list.length + 1)).appendCells (list ++ [sentinel]),
    ⟨(arena.withRoom (list.length + 1)).blocks.size - 1,
      (arena.withRoom (list.length + 1)).tip⟩, ?_, ?_, ?_, holds_appendCells hblocks hplain⟩
  · have hlaid : (arena.needsBlock (list.length + 1) && decide (maxCapacity < arena.capacity)) =
        false := by
      simp [Nat.not_lt.mpr hlaid]
    rw [store, allocate, if_neg (Nat.not_lt.mpr hfits), hlaid, if_neg Bool.false_ne_true]
    simp only [Run.next_done]
    rw [← write_grow _ hblocks, hcells]
  · simp only [appendCells, withRoom]
    split
    · rfl
    · rfl
  · exact (extends_withRoom arena _).trans (extends_appendCells _ _)

end SieveFilter.Arena
