import SieveFilter.Pattern
import SieveFilter.Text.Blank
import SieveFilter.Text.Numeral

/-!
# Elements of written patterns

The pieces that a written pattern consists of: escapes, sets of characters in brackets, and the flags that
tell how they are meant.  Properties of characters beyond ASCII are not known here: a pattern is refused
where it asks for one, and so are sets that would have to cut a character into bytes.
-/

namespace SieveFilter.Pattern

open Text (Numeral.digitsFrom Numeral.digit? isBlank)

/-- How the elements of a pattern are meant. -/
structure Flags where
  /-- Letters count in either case. -/
  anyCase : Bool
  /-- The anchors of a text are also those of its lines. -/
  multiLine : Bool
  /-- A dot stands for every character, line ends included. -/
  dotAll : Bool
  /-- A carriage return ends a line, too. -/
  returns : Bool
  /-- Elements speak of characters, not of ASCII alone. -/
  unicode : Bool
  /-- Blanks and comments between elements do not count. -/
  spaced : Bool
  deriving DecidableEq, Repr

/-- The flags at the start of a pattern. -/
def Flags.initial : Flags :=
  ⟨false, false, false, false, true, false⟩

/-- The text without the blanks and comments at its start, if they do not count; `comment` tells that it
starts within a comment. -/
def skip (spaced comment : Bool) : List Char → List Char
  | [] => []
  | c :: rest =>
    if !spaced then c :: rest
    else if comment then skip true (c != '\n') rest
    else if isBlank c then skip true false rest
    else if c = '#' then skip true true rest
    else c :: rest

namespace Flags

/-- The text without the blanks and comments at its start, where they do not count. -/
def skip (flags : Flags) (text : List Char) : List Char :=
  Pattern.skip flags.spaced false text

/-- The flags with the flag of a letter turned on or off. -/
def turn? (flags : Flags) (letter : Char) (on : Bool) : Option Flags :=
  match letter with
  | 'i' => some { flags with anyCase := on }
  | 'm' => some { flags with multiLine := on }
  | 's' => some { flags with dotAll := on }
  | 'R' => some { flags with returns := on }
  | 'u' => some { flags with unicode := on }
  | 'x' => some { flags with spaced := on }
  | 'U' => some flags
  | _ => none

/-- Reads flags up to the colon or the closing parenthesis behind them.  Each is given once, and those
behind a hyphen are turned off.  `seen` holds what has been read, latest first. -/
def readFrom (flags : Flags) (on : Bool) (seen : List Char) :
    List Char → Option (Flags × Bool × Char × List Char)
  | [] => none
  | c :: rest =>
    if c = ':' ∨ c = ')' then
      if seen.head? = some '-' then none else some (flags, !seen.isEmpty, c, rest)
    else if seen.contains c then none
    else if c = '-' then readFrom flags false (c :: seen) rest
    else
      match flags.turn? c on with
      | some flags => readFrom flags on (c :: seen) rest
      | none => none

/-- The set that a dot stands for, unless it would stand for bytes. -/
def dot? (flags : Flags) : Option CharSet :=
  if !flags.unicode then none
  else if flags.dotAll then some .all
  else if flags.returns then some (.compl (.union (.single '\r') (.single '\n')))
  else some (.compl (.single '\n'))

/-- The anchor at the start of a text or line. -/
def start (flags : Flags) : Anchor :=
  if !flags.multiLine then .textStart else if flags.returns then .anyLineStart else .lineStart

/-- The anchor at the end of a text or line. -/
def finish (flags : Flags) : Anchor :=
  if !flags.multiLine then .textEnd else if flags.returns then .anyLineEnd else .lineEnd

/-- The set of a character that stands for itself.  The cases of characters in general are not known. -/
def single? (flags : Flags) (c : Char) : Option CharSet :=
  if !flags.anyCase then some (.single c)
  else if flags.unicode then none
  else some (.eitherCase (.single c))

end Flags

/-- What an escape or a plain character stands for. -/
inductive Element where
  | char (c : Char)
  /-- A number of two hexadecimal digits, which is a byte where elements speak of ASCII. -/
  | byte (c : Char)
  | set (set : CharSet)
  | anchor (condition : Anchor)
  deriving DecidableEq, Repr

def digits : CharSet :=
  .range '0' '9'

def capitals : CharSet :=
  .range 'A' 'Z'

def smalls : CharSet :=
  .range 'a' 'z'

def alphanumerics : CharSet :=
  .union digits (.union capitals smalls)

def blanks : CharSet :=
  .union (.range '\t' '\r') (.single ' ')

def wordChars : CharSet :=
  .union alphanumerics (.single '_')

def charOfPoint? (point : Nat) : Option Char :=
  if point.isValidChar then some (Char.ofNat point) else none

/-- Splits off the given number of hexadecimal digits, with what does not count between them. -/
def readHexDigits (flags : Flags) : Nat → List Char → Option (List Char × List Char)
  | 0, text => some ([], text)
  | n + 1, c :: rest =>
    if (Numeral.digit? 16 c).isSome then
      (readHexDigits flags n (flags.skip rest)).map fun (digits, rest) => (c :: digits, rest)
    else none
  | _ + 1, [] => none

/-- Splits off hexadecimal digits up to a closing brace. -/
def readBracedDigits (flags : Flags) : Nat → List Char → Option (List Char × List Char)
  | 0, _ => none
  | _, [] => none
  | fuel + 1, c :: rest =>
    if c = '\x7d' then some ([], flags.skip rest)
    else if (Numeral.digit? 16 c).isSome then
      (readBracedDigits flags fuel (flags.skip rest)).map fun (digits, rest) => (c :: digits, rest)
    else none

/-- Reads the number of a character: digits in braces, or `count` of them. -/
def readCodePoint (flags : Flags) (count : Nat) (text : List Char) : Option (Element × List Char) :=
  match flags.skip text with
  | '\x7b' :: rest => do
    let (digits, rest) ← readBracedDigits flags (rest.length + 1) (flags.skip rest)
    let c ← if digits = [] then none else Numeral.digitsFrom 16 0 digits >>= charOfPoint?
    return (.char c, rest)
  | text => do
    let (digits, rest) ← readHexDigits flags count text
    let c ← Numeral.digitsFrom 16 0 digits >>= charOfPoint?
    return (if count = 2 then .byte c else .char c, rest)

/-- The kinds of word borders that have names. -/
def borderOfName? (name : List Char) : Option Anchor :=
  match String.ofList name with
  | "start" => some .wordStart
  | "end" => some .wordEnd
  | "start-half" => some .behindNoWord
  | "end-half" => some .beforeNoWord
  | _ => none

/-- Characters of the names of word borders. -/
def isBorderChar (c : Char) : Bool :=
  c.isAlpha || c == '-'

/-- Splits off the characters of the name of a word border, with what does not count between them. -/
def readBorderName (flags : Flags) : Nat → List Char → List Char × List Char
  | 0, text => ([], text)
  | _, [] => ([], [])
  | fuel + 1, c :: rest =>
    if isBorderChar c then
      let (name, rest) := readBorderName flags fuel (flags.skip rest)
      (c :: name, rest)
    else ([], c :: rest)

/-- Reads the word border behind its letter.  What stands in braces is its name, unless it is a number of
repetitions. -/
def readBorder (flags : Flags) (text : List Char) : Option (Anchor × List Char) :=
  match text with
  | '\x7b' :: inner =>
    match flags.skip inner with
    | [] => none
    | c :: rest =>
      if !isBorderChar c then some (.wordBorder, text)
      else
        match readBorderName flags (rest.length + 1) (c :: rest) with
        | (name, '\x7d' :: rest) => (borderOfName? name).map (·, rest)
        | _ => none
  | text => some (.wordBorder, text)

/-- The word border of an escape; where elements speak of characters in general, words are not known. -/
def Flags.border? (flags : Flags) (condition : Anchor) : Option Element :=
  if flags.unicode then none else some (.anchor condition)

/-- The set of an escape; where elements speak of characters in general, it is not known. -/
def Flags.class? (flags : Flags) (set : CharSet) : Option Element :=
  if flags.unicode then none else some (.set set)

/-- Reads what follows a backslash. -/
def readEscape (flags : Flags) : List Char → Option (Element × List Char)
  | [] => none
  | c :: rest =>
    match c with
    | 'x' => readCodePoint flags 2 rest
    | 'u' => readCodePoint flags 4 rest
    | 'U' => readCodePoint flags 8 rest
    | 'd' => (flags.class? digits).map (·, rest)
    | 's' => (flags.class? blanks).map (·, rest)
    | 'w' => (flags.class? wordChars).map (·, rest)
    | 'a' => some (.char '\x07', rest)
    | 'f' => some (.char '\x0c', rest)
    | 't' => some (.char '\t', rest)
    | 'n' => some (.char '\n', rest)
    | 'r' => some (.char '\r', rest)
    | 'v' => some (.char '\x0b', rest)
    | 'A' => some (.anchor .textStart, rest)
    | 'z' => some (.anchor .textEnd, rest)
    | 'b' => do
      let (condition, rest) ← readBorder flags rest
      return (← flags.border? condition, rest)
    | 'B' => (flags.border? .noWordBorder).map (·, rest)
    | '<' => (flags.border? .wordStart).map (·, rest)
    | '>' => (flags.border? .wordEnd).map (·, rest)
    | c => if c.isAlphanum || 128 ≤ c.toNat then none else some (.char c, rest)

/-- The names of sets of ASCII characters. -/
def setOfName? (name : String) : Option CharSet :=
  match name with
  | "alnum" => some alphanumerics
  | "alpha" => some (.union capitals smalls)
  | "ascii" => some (.range '\x00' '\x7f')
  | "blank" => some (.union (.single '\t') (.single ' '))
  | "cntrl" => some (.union (.range '\x00' '\x1f') (.single '\x7f'))
  | "digit" => some digits
  | "graph" => some (.range '!' '~')
  | "lower" => some smalls
  | "print" => some (.range ' ' '~')
  | "punct" =>
    some (.union (.union (.range '!' '/') (.range ':' '@')) (.union (.range '[' '\x60') (.range '\x7b' '~')))
  | "space" => some blanks
  | "upper" => some capitals
  | "word" => some wordChars
  | "xdigit" => some (.union digits (.union (.range 'A' 'F') (.range 'a' 'f')))
  | _ => none

/-- The complement of a set if it is asked for.  It is refused where elements speak of ASCII. -/
def Flags.negated? (flags : Flags) (negated : Bool) (set : CharSet) : Option CharSet :=
  if !negated then some set else if flags.unicode then some (.compl set) else none

/-- Reads the rest of a named set behind its opening bracket and colon; nothing if it is not one. -/
def readNamed (text : List Char) : Option (Bool × CharSet × List Char) :=
  let (negated, text) := match text with
    | '^' :: rest => (true, rest)
    | text => (false, text)
  match text.span (· != ':') with
  | (name, ':' :: ']' :: rest) =>
    (setOfName? (String.ofList name)).map fun set => (negated, set, rest)
  | _ => none

/-- Reads one element of a set. -/
def readMember (flags : Flags) : List Char → Option (Element × List Char)
  | [] => none
  | '\\' :: rest => readEscape flags rest
  | c :: rest => some (.char c, rest)

/-- The character of an element of a set, of ASCII alone where elements speak of that. -/
def Flags.charOf? (flags : Flags) : Element → Option Char
  | .char c | .byte c => if flags.unicode || c.toNat < 128 then some c else none
  | _ => none

/-- Reads an element of a set, or a range between two characters. -/
def readRange (flags : Flags) (text : List Char) : Option (CharSet × List Char) := do
  let (element, rest) ← readMember flags text
  let alone : Option (CharSet × List Char) :=
    match element with
    | .set set => some (set, rest)
    | element => (flags.charOf? element).map fun c => (.single c, rest)
  match flags.skip rest with
  | [] => none
  | '-' :: tail =>
    match flags.skip tail with
    | ']' :: _ | '-' :: _ => alone
    | tail => do
      let first ← flags.charOf? element
      let (element, rest) ← readMember flags tail
      let last ← flags.charOf? element
      if first ≤ last then some (.range first last, rest) else none
  | _ => alone

/-- The ways to join two sets. -/
inductive Joint where
  | inter
  | diff
  | symmDiff
  deriving DecidableEq, Repr

/-- The set with the other cases of its letters, where letters count in either case. -/
def Flags.folded (flags : Flags) (set : CharSet) : CharSet :=
  if flags.anyCase then .eitherCase set else set

/-- Joins a set to what stands before it. -/
def join (flags : Flags) (before : Option (CharSet × Joint)) (set : CharSet) : CharSet :=
  match before with
  | none => set
  | some (left, .inter) => .inter (flags.folded left) (flags.folded set)
  | some (left, .diff) => .diff (flags.folded left) (flags.folded set)
  | some (left, .symmDiff) => .symmDiff (flags.folded left) (flags.folded set)

def readHyphens (flags : Flags) : Nat → CharSet → List Char → CharSet × List Char
  | fuel + 1, set, '-' :: rest => readHyphens flags fuel (.union set (.single '-')) (flags.skip rest)
  | _, set, text => (set, text)

/-- Reads the opening of a set behind its bracket: whether it is a complement, and the hyphens or the
closing bracket that stand for themselves there. -/
def readOpening (flags : Flags) (text : List Char) : Bool × CharSet × List Char :=
  let (negated, text) := match flags.skip text with
    | '^' :: rest => (true, flags.skip rest)
    | text => (false, text)
  match readHyphens flags text.length .empty text with
  | (.empty, ']' :: rest) => (negated, .single ']', rest)
  | (set, text) => (negated, set, text)

mutual

/-- Reads a set behind its opening bracket. -/
def readSet (flags : Flags) : Nat → List Char → Option (CharSet × List Char)
  | 0, _ => none
  | fuel + 1, text => do
    let (negated, set, rest) := readOpening flags text
    let (set, rest) ← readMembers flags fuel none set rest
    if flags.anyCase && flags.unicode then none
    else
      let set ← flags.negated? negated (flags.folded set)
      some (set, rest)

/-- Reads the elements of a set up to its closing bracket, with `set` the elements before them. -/
def readMembers (flags : Flags) : Nat → Option (CharSet × Joint) → CharSet → List Char →
    Option (CharSet × List Char)
  | 0, _, _, _ => none
  | fuel + 1, before, set, text =>
    match flags.skip text with
    | [] => none
    | ']' :: rest => some (join flags before set, rest)
    | '&' :: '&' :: rest => readMembers flags fuel (some (join flags before set, .inter)) .empty rest
    | '-' :: '-' :: rest => readMembers flags fuel (some (join flags before set, .diff)) .empty rest
    | '~' :: '~' :: rest => readMembers flags fuel (some (join flags before set, .symmDiff)) .empty rest
    | '[' :: rest =>
      let named := match rest with
        | ':' :: rest => readNamed rest
        | _ => none
      match named with
      | some (negated, inner, rest) => do
        let inner ← flags.negated? negated inner
        readMembers flags fuel before (.union set inner) rest
      | none => do
        let (inner, rest) ← readSet flags fuel rest
        readMembers flags fuel before (.union set inner) rest
    | text => do
      let (inner, rest) ← readRange flags text
      readMembers flags fuel before (.union set inner) rest

end

end SieveFilter.Pattern
