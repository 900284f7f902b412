import SieveFilter.Run

/-!
# Arenas

Storage for many short lists of numbers.  Lists are carved one after the other out of blocks of a fixed
capacity, each list ended by a sentinel, and all of them are given back at once.  A list never crosses
the border between two blocks.
-/

namespace SieveFilter

/-- Blocks of cells; only the last block still grows. -/
structure Arena where
  capacity : Nat
  blocks : Array (Array Nat)
  deriving DecidableEq, Repr

namespace Arena

/-- The place of a range of cells: its block and its first cell in it. -/
structure Handle where
  block : Nat
  offset : Nat
  deriving DecidableEq, Repr

/-- The cell that ends a list. -/
def sentinel : Nat := Nat.pow 2 32 - 1

/-- The capacity of a block where none is asked for. -/
def defaultCapacity : Nat := 1000000

/-- An empty arena whose blocks hold the given number of cells, or one cell if it is zero. -/
def new (capacity : Nat) : Arena :=
  ⟨max capacity 1, #[]⟩

def blockCount (arena : Arena) : Nat :=
  arena.blocks.size

/-- The number of cells in use in the last block. -/
def tip (arena : Arena) : Nat :=
  (arena.blocks.back?.map Array.size).getD 0

/-- A new block is needed unless the last one has room for `n` more cells. -/
def needsBlock (arena : Arena) (n : Nat) : Bool :=
  arena.blocks.isEmpty || arena.capacity < arena.tip + n

/-- The cells that a block can be laid out for: four bytes each, and less than 2⁶³ bytes in all. -/
def maxCapacity : Nat := Nat.pow 2 61 - 1

/-- Opens a new block unless the last one has room for `n` more cells. -/
def withRoom (arena : Arena) (n : Nat) : Arena :=
  if arena.needsBlock n then { arena with blocks := arena.blocks.push #[] }
  else arena

def grow (arena : Arena) (n : Nat) : Arena :=
  { arena with
    blocks := arena.blocks.modify (arena.blocks.size - 1) (· ++ Array.replicate n 0) }

/-- Reserves `n` zero cells.  A request that no block can hold fails and changes nothing, and one for which
a block would have to be laid out that is too large breaks off. -/
def allocate (arena : Arena) (n : Nat) : Run Arena Handle :=
  if arena.capacity < n then
    let cause := .listTooLong n arena.capacity
    .fail arena cause
  else if arena.needsBlock n && maxCapacity < arena.capacity then .fail arena .breakdown
  else
    let arena := arena.withRoom n
    let handle := ⟨arena.blocks.size - 1, arena.tip⟩
    .done (arena.grow n) handle

def writeCells (block : Array Nat) (offset : Nat) : List Nat → Array Nat
  | [] => block
  | cell :: rest => writeCells (block.setIfInBounds offset cell) (offset + 1) rest

def write (arena : Arena) (handle : Handle) (cells : List Nat) : Arena :=
  { arena with
    blocks := arena.blocks.modify handle.block (writeCells · handle.offset cells) }

/-- Stores a list and its sentinel. -/
def store (arena : Arena) (list : List Nat) : Run Arena Handle :=
  (arena.allocate (list.length + 1)).next fun arena handle =>
    .done (arena.write handle (list ++ [sentinel])) handle

/-- The position of the first sentinel of a block at or after a position, or the end of the block. -/
def listEnd (block : Array Nat) (position : Nat) : Nat :=
  if h : position < block.size then
    if block[position] = sentinel then position else listEnd block (position + 1)
  else position
termination_by block.size - position

/-- The `n` cells from a handle on, if all of them are in use. -/
def cells? (arena : Arena) (handle : Handle) (n : Nat) : Option (List Nat) :=
  match arena.blocks[handle.block]? with
  | none => none
  | some block =>
    if handle.offset + n ≤ block.size then
      some (block.extract handle.offset (handle.offset + n)).toList
    else none

/-- The arena after writing to cells that are all in use. -/
def write? (arena : Arena) (handle : Handle) (cells : List Nat) : Option Arena :=
  (arena.cells? handle cells.length).map fun _ => arena.write handle cells

/-- The list that starts at a handle, up to its sentinel, if the handle lies in a block. -/
def list? (arena : Arena) (handle : Handle) : Option (List Nat) :=
  match arena.blocks[handle.block]? with
  | none => none
  | some block =>
    if handle.offset ≤ block.size then
      some (block.extract handle.offset (listEnd block handle.offset)).toList
    else none

/-- The list that starts at a handle; a handle without cells has the empty list. -/
def list (arena : Arena) (handle : Handle) : List Nat :=
  (arena.list? handle).getD []

/-- Gives back all blocks. -/
def release (arena : Arena) : Arena :=
  { arena with blocks := #[] }

/-- The bytes held, at four bytes a cell: the cells in use of all blocks but the last, which is held in
full. -/
def bytes (arena : Arena) : Nat :=
  match arena.blocks.toList.reverse with
  | [] => 0
  | _ :: full => 4 * full.foldl (fun cells block => cells + block.size) arena.capacity

end Arena

end SieveFilter
