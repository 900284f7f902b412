import SieveFilter.Pattern.Element

/-!
# Reading patterns

A pattern is written as alternatives with bars between them, each of them a sequence of elements and groups
with their repetitions.  A text that is not written like this is no pattern, and neither is one that would
need too much storage.
-/

namespace SieveFilter

namespace Pattern

open Text (Numeral.digitsFrom isBlank)

/-- How the elements to come are meant, and the names given to groups so far. -/
structure Reading where
  flags : Flags
  names : List String
  deriving DecidableEq, Repr

/-- The pattern of an element. -/
def ofElement? (flags : Flags) : Element → Option Pattern
  | .char c => (flags.single? c).map .one
  | .byte c =>
    if flags.unicode || c.toNat < 128 then (flags.single? c).map .one else none
  | .set set => some (.one set)
  | .anchor condition => some (.anchor condition)

/-- Whether a character may stand in the name of a group; characters beyond ASCII count as letters. -/
def isNameChar (isFirst : Bool) (c : Char) : Bool :=
  c == '_' || c.isAlpha || 128 ≤ c.toNat ||
    !isFirst && (c.isDigit || c == '.' || c == '[' || c == ']')

/-- Reads the name of a group up to its closing angle.  Every group has another name. -/
def Reading.name? (reading : Reading) (text : List Char) : Option (Reading × List Char) :=
  match text.span (· != '>') with
  | (first :: others, '>' :: rest) =>
    let name := String.ofList (first :: others)
    if isNameChar true first && others.all (isNameChar false) && !reading.names.contains name then
      some ({ reading with names := name :: reading.names }, rest)
    else none
  | _ => none

/-- What stands behind an opening parenthesis: the start of a group, or flags for all that follows. -/
inductive Opening where
  | group (reading : Reading)
  | flags (reading : Reading)
  deriving DecidableEq, Repr

/-- Reads what stands behind an opening parenthesis.  There are no groups that look ahead or back. -/
def Reading.opening? (reading : Reading) (text : List Char) : Option (Opening × List Char) :=
  match reading.flags.skip text with
  | '?' :: '=' :: _ | '?' :: '!' :: _ => none
  | '?' :: '<' :: '=' :: _ | '?' :: '<' :: '!' :: _ => none
  | '?' :: 'P' :: '<' :: rest | '?' :: '<' :: rest =>
    (reading.name? rest).map fun (reading, rest) => (.group reading, rest)
  | '?' :: rest => do
    let (flags, given, mark, rest) ← reading.flags.readFrom true [] rest
    let reading := { reading with flags }
    if mark = ':' then some (.group reading, rest)
    else if given then some (.flags reading, rest)
    else none
  | rest => some (.group reading, rest)

/-- Splits off the digits of a number, with what does not count between them. -/
def readDigits (flags : Flags) : Nat → List Char → List Char × List Char
  | 0, text => ([], text)
  | _, [] => ([], [])
  | fuel + 1, c :: rest =>
    if c.isDigit then
      let (digits, rest) := readDigits flags fuel (flags.skip rest)
      (c :: digits, rest)
    else ([], c :: rest)

/-- Reads a number of repetitions of 32 bits, blanks around it allowed. -/
def readCount (flags : Flags) (text : List Char) : Option (Nat × List Char) := do
  let text := text.dropWhile isBlank
  let (digits, rest) := readDigits flags (text.length + 1) text
  let n ← if digits = [] then none else Numeral.digitsFrom 10 0 digits
  if n < Nat.pow 2 32 then some (n, flags.skip (rest.dropWhile isBlank)) else none

/-- Reads the bounds of a repetition behind its opening brace. -/
def readBounds (flags : Flags) (text : List Char) : Option (Nat × Option Nat × List Char) := do
  let (least, rest) ← readCount flags (flags.skip text)
  match rest with
  | '\x7d' :: rest => some (least, some least, flags.skip rest)
  | ',' :: rest =>
    match flags.skip rest with
    | '\x7d' :: rest => some (least, none, flags.skip rest)
    | rest => do
      let (most, rest) ← readCount flags rest
      match rest with
      | '\x7d' :: rest => if least ≤ most then some (least, some most, flags.skip rest) else none
      | _ => none
  | _ => none

/-- The text without the mark for the shortest stretch, which makes no difference here. -/
def dropLazyMark : List Char → List Char
  | '?' :: rest => rest
  | text => text

/-- A sequence as far as it is read: what is finished of it, and the last element, which may yet be
repeated. -/
structure Partial where
  finished : Pattern
  last : Option Pattern

def Partial.pattern (sequence : Partial) : Pattern :=
  match sequence.last with
  | some last => .seq sequence.finished last
  | none => sequence.finished

def Partial.push (sequence : Partial) (pattern : Pattern) : Partial :=
  ⟨sequence.pattern, some pattern⟩

/-- The sequence with its last element repeated. -/
def Partial.repeat? (sequence : Partial) (least : Nat) (most : Option Nat) : Option Partial :=
  sequence.last.map fun last => ⟨sequence.finished, some (.times last least most)⟩

mutual

def readAlternatives : Nat → Reading → List Char → Option (Pattern × Reading × List Char)
  | 0, _, _ => none
  | fuel + 1, reading, text => do
    let (left, reading, rest) ← readSequence fuel reading ⟨.empty, none⟩ text
    match rest with
    | '|' :: rest => do
      let (right, reading, rest) ← readAlternatives fuel reading rest
      return (.alt left right, reading, rest)
    | rest => return (left, reading, rest)

/-- Reads elements up to a bar, a closing parenthesis or the end. -/
def readSequence : Nat → Reading → Partial → List Char → Option (Pattern × Reading × List Char)
  | 0, _, _, _ => none
  | fuel + 1, reading, sequence, text => do
    let flags := reading.flags
    let repeated (least : Nat) (most : Option Nat) (rest : List Char) := do
      let sequence ← sequence.repeat? least most
      readSequence fuel reading sequence (dropLazyMark rest)
    let single (pattern? : Option Pattern) (rest : List Char) := do
      readSequence fuel reading (sequence.push (← pattern?)) rest
    match flags.skip text with
    | [] => return (sequence.pattern, reading, [])
    | ')' :: rest => return (sequence.pattern, reading, ')' :: rest)
    | '|' :: rest => return (sequence.pattern, reading, '|' :: rest)
    | '(' :: rest =>
      match ← reading.opening? rest with
      | (.flags reading, rest) => readSequence fuel reading ⟨sequence.pattern, none⟩ rest
      | (.group inner, rest) => do
        let (pattern, inner, rest) ← readAlternatives fuel inner rest
        match rest with
        | ')' :: rest =>
          readSequence fuel { inner with flags } (sequence.push pattern) rest
        | _ => none
    | '[' :: rest => do
      let (set, rest) ← readSet flags (2 * rest.length + 2) rest
      readSequence fuel reading (sequence.push (.one set)) rest
    | '?' :: rest => repeated 0 (some 1) rest
    | '*' :: rest => repeated 0 none rest
    | '+' :: rest => repeated 1 none rest
    | '\x7b' :: rest => do
      let (least, most, rest) ← readBounds flags rest
      repeated least most rest
    | '.' :: rest => single (flags.dot?.map .one) rest
    | '^' :: rest => single (some (.anchor flags.start)) rest
    | '$' :: rest => single (some (.anchor flags.finish)) rest
    | '\\' :: rest => do
      let (element, rest) ← readEscape flags rest
      single (ofElement? flags element) rest
    | c :: rest => single ((flags.single? c).map .one) rest

end

end Pattern

namespace CharSet

/-- A set holds only characters of ASCII, as far as its form shows. -/
def isAscii : CharSet → Bool
  | empty => true
  | range _ last => last.toNat < 128
  | union left right | symmDiff left right => left.isAscii && right.isAscii
  | inter left right => left.isAscii || right.isAscii
  | diff left _ => left.isAscii
  | compl _ => false
  | eitherCase set => set.isAscii

/-- The storage for a set: one state if it is of ASCII, one for each byte of a single character, and else
several for the ways in which characters are encoded. -/
def storage : CharSet → Nat
  | range first last =>
    if last.toNat < 128 then 32 else if first = last then 32 * first.utf8Size else 600
  | set => if set.isAscii then 48 else 600

end CharSet

namespace Pattern

/-- The storage for a pattern in bytes; each repetition that is counted takes its own. -/
def storage : Pattern → Nat
  | empty | anchor _ => 32
  | one set => set.storage
  | seq first second => first.storage + second.storage
  | alt left right => left.storage + right.storage + 36
  | times pattern least most =>
    match most with
    | some most => least * pattern.storage + (most - least) * (pattern.storage + 40)
    | none => max least 1 * pattern.storage + 40

/-- The storage that a pattern may take. -/
def maxStorage : Nat := 10 * Nat.pow 2 20

/-- Reads a pattern.  Every step takes a character or begins a sequence, so two steps a character are
enough. -/
def read? (text : String) : Option Pattern :=
  let chars := text.toList
  match readAlternatives (2 * chars.length + 2) ⟨.initial, []⟩ chars with
  | some (pattern, _, []) => if pattern.storage ≤ maxStorage then some pattern else none
  | _ => none

end Pattern

end SieveFilter
