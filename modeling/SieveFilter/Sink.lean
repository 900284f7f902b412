/-!
# Sinks

Destinations of written text.  A sink may take only a limited number of bytes; a text that does not fit is
written as far as it does.
-/

namespace SieveFilter

/-- The bytes written so far, and how many bytes the destination takes in all, if that is limited. -/
structure Sink where
  written : ByteArray
  limit : Option Nat

namespace Sink

/-- A destination to which nothing is written yet. -/
def empty (limit : Option Nat) : Sink :=
  ⟨.empty, limit⟩

/-- Writes a text, and says whether all of it fitted. -/
def put (sink : Sink) (text : String) : Sink × Bool :=
  let bytes := text.toUTF8
  match sink.limit with
  | none => ({ sink with written := sink.written ++ bytes }, true)
  | some limit =>
    let room := limit - sink.written.size
    if bytes.size ≤ room then ({ sink with written := sink.written ++ bytes }, true)
    else ({ sink with written := sink.written ++ bytes.extract 0 room }, false)

end Sink

end SieveFilter
