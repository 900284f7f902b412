import SieveFilter.Notice
import SieveFilter.Pattern.Reader
import SieveFilter.Text.Terminal

/-!
# Log filters

A filter says which notices of the program are shown.  It is a list of directives with commas between them,
and after a slash a pattern that the wording of a notice must fit.  A directive is a level, for everything; a
name, for the parts of the program whose names begin with it, at every level; or both with an equals sign
between them.  Of the directives for a part, the one with the longest name counts.
-/

namespace SieveFilter

/-- A directive: the names that it is for, all of them if it names none, and the greatest rank it shows. -/
structure Directive where
  name : Option String
  rank : Nat
  deriving DecidableEq, Repr

namespace Directive

/-- The rank of the level that a word names, in letters of either case; zero shows nothing. -/
def rank? (word : String) : Option Nat :=
  match word.toLower with
  | "off" => some 0
  | "error" => some Level.error.rank
  | "warn" => some Level.warn.rank
  | "info" => some Level.info.rank
  | "debug" => some Level.debug.rank
  | "trace" => some Level.trace.rank
  | _ => none

/-- Reads a directive; one that makes no sense is left out. -/
def read? (text : String) : Option Directive :=
  match text.splitOn "=" with
  | [word] =>
    match rank? word with
    | some rank => some ⟨none, rank⟩
    | none => some ⟨some word, Level.trace.rank⟩
  | [name, word] =>
    let word := String.ofList (Text.trim word.toList)
    if word = "" then some ⟨some name, Level.trace.rank⟩
    else (rank? word).map (⟨some name, ·⟩)
  | _ => none

def isFor (directive : Directive) (part : String) : Bool :=
  match directive.name with
  | none => true
  | some name => name.toList.isPrefixOf part.toList

/-- The length of the name of a directive. -/
def reach (directive : Directive) : Nat :=
  (directive.name.map String.utf8ByteSize).getD 0

end Directive

/-- A filter: its directives in the order of their reach, and the pattern if it has one. -/
structure LogFilter where
  directives : List Directive
  pattern : Option Pattern
  deriving Repr

namespace LogFilter

/-- Adds a directive, in the place of the one with the same name if there is one. -/
def add (directives : List Directive) (directive : Directive) : List Directive :=
  if directives.any (·.name == directive.name) then
    directives.map fun other => if other.name == directive.name then directive else other
  else directives ++ [directive]

/-- The directives of a list, of several with one name the last, in the order of their reach.  Where there
are none, errors are shown. -/
def directivesOf (text : String) : List Directive :=
  let words := (text.splitOn ",").map fun word => String.ofList (Text.trim word.toList)
  let read := (words.filter (· != "")).filterMap Directive.read?
  match read.foldl add [] with
  | [] => [⟨none, Level.error.rank⟩]
  | directives => directives.mergeSort fun left right => left.reach ≤ right.reach

/-- Reads a filter.  With more than one slash it is as if nothing had been given, and a pattern that makes no
sense is left out. -/
def read (text : String) : LogFilter :=
  match text.splitOn "/" with
  | [directives] => ⟨directivesOf directives, none⟩
  | [directives, pattern] => ⟨directivesOf directives, Pattern.read? pattern⟩
  | _ => ⟨directivesOf "", none⟩

/-- The greatest rank that is shown of a part of the program. -/
def rankOf (filter : LogFilter) (part : String) : Nat :=
  match filter.directives.reverse.find? (·.isFor part) with
  | some directive => directive.rank
  | none => 0

def shows (filter : LogFilter) (notice : Notice) : Bool :=
  notice.level.rank ≤ filter.rankOf notice.part && filter.pattern.all (·.fits notice.message)

/-- The line of a notice in the log of a terminal program; a wording of several lines is cut after the
first. -/
def line (notice : Notice) : String :=
  ((Text.withoutControls notice.line).splitOn "\n").headD ""

def lines (filter : LogFilter) (notices : List Notice) : List String :=
  (notices.filter filter.shows).map line

end LogFilter

end SieveFilter
