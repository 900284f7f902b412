import SieveFilter.Notice

/-!
# Streams of relation lines

Every pass reads the relations again from the start.  A source says what each reading of it yields, so it
covers inputs that do not change as well as inputs that differ from one reading to the next.
-/

namespace SieveFilter

/-- What the reader of a stream meets: a file opened on the way, a line, or a fault in place of a line. -/
inductive Event where
  | opened (path : String)
  | line (text : String)
  | fault (cause : Fault)
  deriving DecidableEq, Repr

/-- The events of each reading, the readings counted from zero. -/
abbrev Source := Nat → List Event

namespace Source

/-- The source that yields the same lines on every reading. -/
def ofLines (lines : List String) : Source :=
  fun _ => lines.map .line

end Source

end SieveFilter
