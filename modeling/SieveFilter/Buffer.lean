/-!
# Buffered files

A file is written through a buffer, one word or separator after the other.  What is written stays in the
buffer until something does not fit in it any more; then the file gets what the buffer holds.  Two writers of
one file see the difference: each of them writes at its own place, and the later one prevails.
-/

namespace SieveFilter.Buffer

/-- The bytes that a buffer holds. -/
def capacity : Nat := 8192

/-- How many bytes the file has got, and how many the buffer holds. -/
structure Level where
  passed : Nat
  held : Nat
  deriving DecidableEq, Repr

/-- The level after one more piece of a number of bytes. -/
def Level.add (level : Level) (bytes : Nat) : Level :=
  if level.held + bytes ≤ capacity then { level with held := level.held + bytes }
  else ⟨level.passed + level.held, bytes⟩

/-- The level after bytes of text; `word` is the length of the word that they begin in. -/
def Level.write (level : Level) (word : Nat) : List UInt8 → Level
  | [] => level.add word
  | byte :: rest =>
    if byte = 32 ∨ byte = 10 then ((level.add word).add 1).write 0 rest else level.write (word + 1) rest

/-- How many of the bytes of a text the file has got when all of the text is written and the buffer is not
yet emptied. -/
def passed (text : ByteArray) : Nat :=
  (Level.write ⟨0, 0⟩ 0 text.data.toList).passed

end SieveFilter.Buffer
