import SieveFilter.Failure

/-!
# Notices

What a run tells about its progress, each notice with its level and its wording.
-/

namespace SieveFilter

/-- How much a notice matters, the most severe level first. -/
inductive Level where
  | error
  | warn
  | info
  | debug
  | trace
  deriving DecidableEq, Repr

namespace Level

/-- The position of a level, counted from the most severe one. -/
def rank : Level → Nat
  | error => 1
  | warn => 2
  | info => 3
  | debug => 4
  | trace => 5

/-- The name of a level in front of a notice. -/
def text : Level → String
  | error => "ERROR"
  | warn => "WARN"
  | info => "INFO"
  | debug => "DEBUG"
  | trace => "TRACE"

end Level

/-- The events that a run reports. -/
inductive Notice where
  | declaredRows (count : Nat)
  | rosterCapacity (capacity : Nat)
  | initialBounds (bounds : Bounds)
  | passBegins (pass : Nat)
  | opened (path : String)
  | loadProgress (row megabytes : Nat)
  | loaded (rows : Nat)
  | passLoaded (rows ideals : Nat) (excess : Int) (free : Nat)
  | removalBegins
  | swept (deleted rows ideals : Nat) (excess : Int)
  | extent (rows weight clusters : Nat)
  | trimmed (rows ideals : Nat)
  | pruneRound (rows ideals : Nat) (excess : Int)
  | passEnds (rows ideals : Nat) (excess : Int)
  | renumberingBegins
  | singletonIdeal (ideal : Ideal)
  | renumbered (ideals columns : Nat)
  | storingBegins
  | emitBegins
  | emitProgress (row : Nat)
  | columnMapFile (path : String)
  | rowCountMissing
  | inputMissing
  | failed (cause : Failure)
  deriving DecidableEq, Repr

namespace Notice

def level : Notice → Level
  | loadProgress .. | loaded .. | swept .. | extent .. | emitProgress .. => .debug
  | singletonIdeal .. => .warn
  | rowCountMissing | inputMissing | failed .. => .error
  | _ => .info

/-- The part of the program that makes a notice, by the name that log filters have for it. -/
def part : Notice → String
  | opened .. => "purge::relation::source"
  | loadProgress .. | loaded .. => "purge::filter::scan"
  | swept .. => "purge::filter::singleton"
  | extent .. | trimmed .. | pruneRound .. => "purge::filter::prune"
  | singletonIdeal .. | renumbered .. => "purge::output::renumber"
  | emitBegins | emitProgress .. => "purge::output::matrix_writer"
  | columnMapFile .. | rowCountMissing | inputMissing | failed .. => "purge"
  | _ => "purge::core::purge"

def message : Notice → String
  | declaredRows count => s!"Number of relations is {count}"
  | rosterCapacity capacity => s!"initializing registry with capacity {capacity}..."
  | initialBounds bounds => s!"Using minpr={bounds.rational} minpa={bounds.algebraic}"
  | passBegins pass => s!"Pass {pass}:"
  | opened path => s!"   Adding file {path}"
  | loadProgress row megabytes => s!"   nrel = {row} (memory {megabytes}Mb)"
  | loaded rows => s!"   Scanned {rows} relations"
  | passLoaded rows ideals excess free =>
    s!"   nrels={rows}, nprimes={ideals}; excess={excess} ({free} free relations)"
  | removalBegins => "   Starting singleton removal..."
  | swept deleted rows ideals excess =>
    s!"   singleton sweep: -{deleted} rows, new_nrows={rows} new_ncols={ideals} ({excess})"
  | extent rows weight clusters =>
    s!"Matrix has {rows} rows and weight {weight}, {clusters} components"
  | trimmed rows ideals => s!"deleted heavier relations: {rows} {ideals}"
  | pruneRound rows ideals excess => s!"   new_nrows={rows} new_ncols={ideals} ({excess})"
  | passEnds rows ideals excess => s!"   nrel={rows}, nprimes={ideals}; excess={excess}"
  | renumberingBegins => "Renumbering primes..."
  | singletonIdeal ideal =>
    if ideal.isRational then s!"singleton rational prime {ideal.p}"
    else s!"singleton algebraic ideal ({ideal.p},{ideal.r})"
  | renumbered ideals columns => s!"Renumbered {ideals} ideals into {columns} columns"
  | storingBegins => "Storing remaining relations..."
  | emitBegins => "Final pass:"
  | emitProgress row => s!"   nrel = {row}"
  | columnMapFile path => s!"Outputting renumber table in file {path}"
  | rowCountMissing => "missing --nrels (or nrels in the configuration)"
  | inputMissing => "no relation files given"
  | failed cause => cause.message

def line (notice : Notice) : String :=
  s!"{notice.level.text} {notice.message}"

end Notice

/-- The lines of the notices that a log keeps when it shows levels up to the given rank. -/
def logLines (rank : Nat) (notices : List Notice) : List String :=
  (notices.filter (·.level.rank ≤ rank)).map Notice.line

end SieveFilter
