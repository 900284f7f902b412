/-!
# Patterns of text

A pattern says which stretches of a text fit it.  Whether some stretch of a text does is found by reading the
text once from left to right: of each pattern it is known what is left of it after a character, and a text
has a fitting stretch as soon as nothing more is needed.
-/

namespace SieveFilter

inductive CharSet where
  | empty
  | range (first last : Char)
  | union (left right : CharSet)
  | inter (left right : CharSet)
  | diff (left right : CharSet)
  | symmDiff (left right : CharSet)
  | compl (set : CharSet)
  /-- The letters of ASCII count in either case. -/
  | eitherCase (set : CharSet)
  deriving DecidableEq, Repr

namespace CharSet

def single (c : Char) : CharSet :=
  .range c c

def all : CharSet :=
  .compl .empty

/-- The letter of ASCII in the other case; other characters have no case. -/
def otherCase (c : Char) : Char :=
  if c.isUpper then c.toLower else c.toUpper

def contains : CharSet → Char → Bool
  | empty, _ => false
  | range first last, c => first ≤ c && c ≤ last
  | union left right, c => left.contains c || right.contains c
  | inter left right, c => left.contains c && right.contains c
  | diff left right, c => left.contains c && !right.contains c
  | symmDiff left right, c => left.contains c != right.contains c
  | compl set, c => !set.contains c
  | eitherCase set, c => set.contains c || set.contains (otherCase c)

end CharSet

/-- Conditions on a place between two characters. -/
inductive Anchor where
  | textStart
  | textEnd
  | lineStart
  | lineEnd
  /-- The start of a line, with a carriage return, a line feed, or both of them between lines. -/
  | anyLineStart
  /-- The end of a line, with a carriage return, a line feed, or both of them between lines. -/
  | anyLineEnd
  | wordBorder
  | noWordBorder
  | wordStart
  | wordEnd
  | beforeNoWord
  | behindNoWord
  deriving DecidableEq, Repr

/-- The characters before and after a place in a text, where there are any. -/
structure Place where
  before : Option Char
  after : Option Char
  deriving DecidableEq, Repr

namespace Place

/-- Letters, digits and the underscore make words. -/
def isWordChar (c : Char) : Bool :=
  c.isAlphanum || c == '_'

def inWordBefore (place : Place) : Bool :=
  place.before.any isWordChar

def inWordAfter (place : Place) : Bool :=
  place.after.any isWordChar

/-- Whether a condition holds at the place. -/
def satisfies (place : Place) : Anchor → Bool
  | .textStart => place.before.isNone
  | .textEnd => place.after.isNone
  | .lineStart => place.before.isNone || place.before == some '\n'
  | .lineEnd => place.after.isNone || place.after == some '\n'
  | .anyLineStart =>
    place.before.isNone || place.before == some '\n' ||
      place.before == some '\r' && place.after != some '\n'
  | .anyLineEnd =>
    place.after.isNone || place.after == some '\r' ||
      place.after == some '\n' && place.before != some '\r'
  | .wordBorder => place.inWordBefore != place.inWordAfter
  | .noWordBorder => place.inWordBefore == place.inWordAfter
  | .wordStart => !place.inWordBefore && place.inWordAfter
  | .wordEnd => place.inWordBefore && !place.inWordAfter
  | .beforeNoWord => !place.inWordAfter
  | .behindNoWord => !place.inWordBefore

end Place

inductive Pattern where
  | empty
  | one (set : CharSet)
  | anchor (condition : Anchor)
  | seq (first second : Pattern)
  | alt (left right : Pattern)
  /-- At least `least` repetitions, and at most `most` if there is a limit. -/
  | times (pattern : Pattern) (least : Nat) (most : Option Nat)
  deriving DecidableEq, Repr

namespace Pattern

/-- Whether the empty stretch at a place fits. -/
def fitsEmpty (place : Place) : Pattern → Bool
  | empty => true
  | one _ => false
  | anchor condition => place.satisfies condition
  | seq first second => first.fitsEmpty place && second.fitsEmpty place
  | alt left right => left.fitsEmpty place || right.fitsEmpty place
  | times pattern least _ => least == 0 || pattern.fitsEmpty place

/-- Patterns that stretches have to fit one after the other. -/
abbrev Remainder := List Pattern

/-- What may be left of a pattern after the character `c`, which stands at the place `place`.  Repetitions
that fit the empty stretch there need not be counted. -/
def after (place : Place) (c : Char) : Pattern → List Remainder
  | empty | anchor _ => []
  | one set => if set.contains c then [[]] else []
  | seq first second =>
    (first.after place c).map (· ++ [second]) ++
      if first.fitsEmpty place then second.after place c else []
  | alt left right => left.after place c ++ right.after place c
  | times pattern least most =>
    if most = some 0 then []
    else
      let least := if pattern.fitsEmpty place then 0 else least - 1
      (pattern.after place c).map (· ++ [times pattern least (most.map (· - 1))])

/-- Whether nothing more is needed at a place. -/
def Remainder.isDone (place : Place) (remainder : Remainder) : Bool :=
  remainder.all (·.fitsEmpty place)

/-- What may be left of a remainder after a character. -/
def Remainder.after (place : Place) (c : Char) : Remainder → List Remainder
  | [] => []
  | pattern :: rest =>
    (pattern.after place c).map (· ++ rest) ++
      if pattern.fitsEmpty place then Remainder.after place c rest else []

/-- Whether some stretch of a text fits that begins in it, or is what a remainder still needs; `before` is
the character in front of the text. -/
def fitsFrom (pattern : Pattern) (remainders : List Remainder) (before : Option Char) :
    List Char → Bool
  | [] => ([pattern] :: remainders).any (Remainder.isDone ⟨before, none⟩)
  | c :: rest =>
    let place : Place := ⟨before, some c⟩
    let remainders := [pattern] :: remainders
    remainders.any (Remainder.isDone place) ||
      fitsFrom pattern (remainders.flatMap (Remainder.after place c)).eraseDups (some c) rest

/-- Whether some stretch of a text fits. -/
def fits (pattern : Pattern) (text : String) : Bool :=
  pattern.fitsFrom [] none text.toList

end Pattern

end SieveFilter
