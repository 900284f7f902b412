import SieveFilter.Text.Numeral
import SieveFilter.Yaml.Reading

/-!
# YAML scalars

The texts that values are written as: without quotes, in quotes of either kind, or as lines of a block.  Line
ends within the first two become blanks, unless empty lines follow them; those of a block stay, or become
blanks, as its first sign says.
-/

namespace SieveFilter.Yaml

open Text (Numeral.digitsFrom)

/-- A text that is read over several lines: its characters, the blanks behind them that count if the line
goes on, whether the line has ended, and the empty lines since.  Characters come latest first. -/
structure Folded where
  text : List Char
  blanks : List Char
  broken : Bool
  empty : Nat

namespace Folded

def none : Folded :=
  ⟨[], [], false, 0⟩

/-- The text with what stands between it and the next characters: the blanks of the line, one blank for a
line end, or a line end for each empty line. -/
def joined (f : Folded) : Folded :=
  if f.broken then
    let between := if f.empty = 0 then [' '] else List.replicate f.empty '\n'
    ⟨between ++ f.text, [], false, 0⟩
  else ⟨List.replicate f.empty '\n' ++ f.blanks ++ f.text, [], false, 0⟩

/-- The text behind a line end; `again` tells that the line has ended before. -/
def endLine (f : Folded) (again : Bool) : Folded :=
  if again then { f with empty := f.empty + 1 } else { f with blanks := [], broken := true }

end Folded

namespace Reading

/-- Splits off the characters of a text without quotes up to a blank, a line end or a sign that ends it. -/
def plainSpan (inFlow : Bool) : List Char → List Char × List Char
  | [] => ([], [])
  | c :: rest =>
    let next := (rest.head?.map isFlow).getD false
    if isBlank c || isBreak c || c == ':' && (atGap rest || inFlow && next) || inFlow && isFlow c then
      ([], c :: rest)
    else
      let (chars, rest) := plainSpan inFlow rest
      (c :: chars, rest)

/-- Reads the blanks and line ends behind a part of a text without quotes. -/
def plainGap (indent : Int) : Nat → Reading → Folded → Option (Reading × Folded)
  | 0, r, f => some (r, f)
  | fuel + 1, r, f =>
    match r.rest with
    | [] => some (r, f)
    | c :: _ =>
      if isBlank c then
        if !r.fresh then plainGap indent fuel r.blank { f with blanks := c :: f.blanks }
        else if c = '\t' ∧ r.column < indent then
          match r.skipInLine true with
          | some (r, _) => if atLineEnd r.rest then plainGap indent fuel r f else none
          | none => none
        else plainGap indent fuel r.blank f
      else if isBreak c then plainGap indent fuel r.newLine (f.endLine r.fresh)
      else some (r, f)

/-- Reads a text without quotes that is indented at least to a column. -/
def readPlainFrom (indent : Int) : Nat → Reading → Folded → Option (Reading × Folded)
  | 0, r, f => some (r, f)
  | fuel + 1, r, f =>
    let endsHere := r.rest.head? == some '#' ||
      r.mark.column == 0 && (startsDocument r.rest || endsDocument r.rest)
    if endsHere then some (r, f)
    else
      match r.inFlow, r.rest with
      | true, '-' :: c :: _ => if isFlow c then none else readOn indent fuel r f
      | _, _ => readOn indent fuel r f
where
  readOn (indent : Int) (fuel : Nat) (r : Reading) (f : Folded) : Option (Reading × Folded) :=
    let (chars, rest) := plainSpan r.inFlow r.rest
    let (r, f) :=
      if chars = [] then (r, f)
      else
        let f := f.joined
        (r.skip chars.length, { f with text := chars.reverse ++ f.text })
    match rest with
    | [] => some (r, f)
    | c :: _ =>
      if isBlank c || isBreak c then
        match plainGap indent (r.rest.length + 1) r f with
        | some (r, f) =>
          if !r.inFlow && r.column < indent then some (r, f) else readPlainFrom indent fuel r f
        | none => none
      else some (r, f)

/-- Reads a text without quotes.  It may go on over lines that are indented deeper than its collection. -/
def readPlain (r : Reading) : Option (Reading × String) := do
  let r := r.unrollLoose
  let indent := r.indent + 1
  if r.inFlow && r.column < indent then none
  else
    let (r, f) ← readPlainFrom indent (r.rest.length + 1) r .none
    let r := if r.fresh then r.allowKey true else r
    return (r, String.ofList f.text.reverse)

/-- The character that an escape of one character stands for. -/
def shortEscape? : Char → Option Char
  | '0' => some '\x00'
  | 'a' => some '\x07'
  | 'b' => some '\x08'
  | 't' => some '\t'
  | '\t' => some '\t'
  | 'n' => some '\n'
  | 'v' => some '\x0b'
  | 'f' => some '\x0c'
  | 'r' => some '\r'
  | 'e' => some '\x1b'
  | ' ' => some ' '
  | '"' => some '"'
  | '/' => some '/'
  | '\\' => some '\\'
  | 'N' => some '\u0085'
  | '_' => some '\u00a0'
  | 'L' => some '\u2028'
  | 'P' => some '\u2029'
  | _ => none

/-- The number of hexadecimal digits behind the letter of an escape. -/
def escapeLength? : Char → Option Nat
  | 'x' => some 2
  | 'u' => some 4
  | 'U' => some 8
  | _ => none

/-- The character that an escape stands for, behind its backslash, and how many characters it takes. -/
def escape? : List Char → Option (Char × Nat)
  | [] => none
  | c :: rest =>
    match escapeLength? c with
    | none => (shortEscape? c).map (·, 1)
    | some length => do
      let digits := rest.take length
      let point ← Numeral.digitsFrom 16 0 digits
      if digits.length = length ∧ point.isValidChar then some (Char.ofNat point, length + 1) else none

/-- Reads the characters of a text in quotes up to a blank, a line end or the closing quote.  The second
result tells that a backslash takes the line end away. -/
def quotedSpan (quote : Char) : Nat → Reading → List Char → Option (Reading × List Char × Bool)
  | 0, _, _ => none
  | fuel + 1, r, text =>
    match r.rest with
    | [] => some (r, text, false)
    | c :: rest =>
      if isBlank c || isBreak c then some (r, text, false)
      else if c = quote then
        if quote = '\'' ∧ rest.head? = some '\'' then quotedSpan quote fuel (r.skip 2) ('\'' :: text)
        else some (r, text, false)
      else if c = '\\' ∧ quote = '"' then
        if rest != [] && atLineEnd rest then some ((r.skip 1).newLine, text, true)
        else
          match escape? rest with
          | some (c, count) => quotedSpan quote fuel (r.skip (count + 1)) (c :: text)
          | none => none
      else quotedSpan quote fuel (r.skip 1) (c :: text)

/-- Reads the blanks and line ends behind a part of a text in quotes; `again` tells that a line has
ended. -/
def quotedGap : Nat → Bool → Reading → Folded → Option (Reading × Folded)
  | 0, _, r, f => some (r, f)
  | fuel + 1, again, r, f =>
    match r.rest with
    | [] => some (r, f)
    | c :: _ =>
      if isBlank c then
        if !again then quotedGap fuel again r.blank { f with blanks := c :: f.blanks }
        else if c = '\t' ∧ r.column < r.indent then none
        else quotedGap fuel again r.blank f
      else if isBreak c then quotedGap fuel true r.newLine (f.endLine again)
      else some (r, f)

/-- Reads a text in quotes behind its first quote, up to the closing one. -/
def readQuotedFrom (quote : Char) : Nat → Reading → Folded → Option (Reading × Folded)
  | 0, _, _ => none
  | fuel + 1, r, f =>
    let misplaced := r.mark.column == 0 && (startsDocument r.rest || endsDocument r.rest)
    if misplaced || r.rest.isEmpty || r.column < r.indent then none
    else
      match quotedSpan quote (r.rest.length + 1) r f.text with
      | none => none
      | some (r, text, cut) =>
        let f := { f with text }
        if r.rest.head? = some quote then some (r, f)
        else
          match quotedGap (r.rest.length + 1) cut r f with
          | none => none
          | some (r, f) => readQuotedFrom quote fuel r f.joined

/-- What may follow a text in quotes: the end of the line, a colon that makes it a key, and in brackets or
braces the signs between items. -/
def mayFollowQuoted (r : Reading) (line : Nat) : Bool :=
  match r.rest with
  | [] => true
  | c :: _ =>
    isBreak c || r.inFlow && (c == ',' || c == '\x7d' || c == ']' || c == ':') ||
      c == ':' && line == r.mark.line

/-- Reads a text in quotes. -/
def readQuoted (r : Reading) (quote : Char) : Option (Reading × String) := do
  let line := r.mark.line
  let (r, f) ← readQuotedFrom quote (r.rest.length + 1) (r.skip 1) .none
  let (r, _) ← (r.skip 1).skipInLine true
  if r.mayFollowQuoted line then some (r, String.ofList f.text.reverse) else none

/-- What becomes of the line ends at the end of a block. -/
inductive Chomping where
  | clip
  | strip
  | keep
  deriving DecidableEq, Repr

/-- The chomping that a sign stands for. -/
def chomping? : Char → Option Chomping
  | '+' => some .keep
  | '-' => some .strip
  | _ => none

/-- Splits off the digit of an indentation; zero is none. -/
def indentDigit : List Char → Option (Nat × List Char)
  | '0' :: _ => none
  | c :: rest => if c.isDigit then some (c.toNat - '0'.toNat, rest) else some (0, c :: rest)
  | [] => some (0, [])

/-- Splits off the signs at the head of a block: its chomping, and how many columns it is indented, zero if
that is not said.  They may stand in either order. -/
def blockHead (text : List Char) : Option (Chomping × Nat × List Char) :=
  match text with
  | [] => some (.clip, 0, [])
  | c :: rest =>
    match chomping? c with
    | some chomping => (indentDigit rest).map fun (indent, rest) => (chomping, indent, rest)
    | none => do
      let (indent, rest) ← indentDigit text
      match indent, rest with
      | _ + 1, c :: tail =>
        match chomping? c with
        | some chomping => some (chomping, indent, tail)
        | none => some (.clip, indent, rest)
      | _, _ => some (.clip, indent, rest)

/-- Reads the blanks that indent a line of a block up to a column, and the empty lines before them. -/
def blockIndent (indent : Nat) : Nat → Reading → Nat → Reading × Nat
  | 0, r, empty => (r, empty)
  | fuel + 1, r, empty =>
    match r.rest with
    | c :: _ =>
      if c = ' ' ∧ r.mark.column < indent then blockIndent indent fuel r.blank empty
      else if isBreak c then blockIndent indent fuel r.newLine (empty + 1)
      else (r, empty)
    | [] => (r, empty)

/-- Reads the blanks and the empty lines in front of the first line of a block.  The widest of the lines gives
the column. -/
def blockFirst : Nat → Reading → Nat → Nat → Reading × Nat × Nat
  | 0, r, widest, empty => (r, widest, empty)
  | fuel + 1, r, widest, empty =>
    match r.rest with
    | c :: _ =>
      if c = ' ' then blockFirst fuel r.blank widest empty
      else if isBreak c then blockFirst fuel r.newLine (max widest r.mark.column) (empty + 1)
      else (r, max widest r.mark.column, empty)
    | [] => (r, max widest r.mark.column, empty)

/-- A block as far as it is read: its text, latest character first, whether a line end stands behind it,
whether its last line began with a blank, and the empty lines since. -/
structure Block where
  text : List Char
  broken : Bool
  blankFirst : Bool
  empty : Nat

def Block.lineEnd (block : Block) : List Char :=
  if block.broken then ['\n'] else []

/-- The text with a line behind it.  In a folded block two lines that begin with no blank are joined. -/
def Block.withLine (block : Block) (literal : Bool) (line : List Char) : Block :=
  let startsBlank := (line.head?.map isBlank).getD false
  let empty := List.replicate block.empty '\n'
  let between :=
    if !literal && block.broken && !block.blankFirst && !startsBlank then
      if block.empty = 0 then [' '] else empty
    else empty ++ block.lineEnd
  ⟨line.reverse ++ between ++ block.text, false, startsBlank, 0⟩

/-- Reads the lines of a block that are indented to a column. -/
def readLines (literal : Bool) (indent : Nat) : Nat → Reading → Block → Reading × Block
  | 0, r, block => (r, block)
  | fuel + 1, r, block =>
    if r.rest.isEmpty || r.mark.column != indent || indent == 0 && endsDocument r.rest then (r, block)
    else
      let line := r.rest.takeWhile (!isBreak ·)
      let block := block.withLine literal line
      let r := { r.skip line.length with fresh := r.fresh }
      if r.rest.isEmpty then (r, block)
      else
        let (r, empty) := blockIndent indent (r.rest.length + 1) r.newLine 0
        readLines literal indent fuel r { block with broken := true, empty }

/-- Reads a block scalar, literal or folded. -/
def readBlock (r : Reading) (literal : Bool) : Option (Reading × String) := do
  let line := r.mark.line
  let r := (r.skip 1).unrollLoose
  let (chomping, deeper, rest) ← blockHead r.rest
  let (r, _) ← (r.skip (r.rest.length - rest.length)).skipInLine true
  if !atLineEnd r.rest then none
  else
    let broken := !r.rest.isEmpty
    let r := if broken then r.newLine else r
    if r.rest.head? = some '\t' then none
    else
      let (r, indent, empty) :=
        if deeper = 0 then
          let (r, widest, empty) := blockFirst (r.rest.length + 1) r 0 0
          (r, max (max widest (r.indent + 1).toNat) (if 0 < r.indent then 1 else 0), empty)
        else
          let indent := r.indent.toNat + deeper
          let (r, empty) := blockIndent indent (r.rest.length + 1) r 0
          (r, indent, empty)
      if r.rest.isEmpty then
        let text := match chomping with
          | .strip => ""
          | .clip => if r.mark.line = line || !broken then "" else "\n"
          | .keep =>
            if r.mark.line = line then ""
            else if empty = 0 then (if broken then "\n" else "")
            else String.ofList (List.replicate empty '\n')
        return (r, text)
      else if r.mark.column < indent ∧ r.indent < r.column then none
      else
        let (r, block) := readLines literal indent (r.rest.length + 1) r ⟨[], false, false, empty⟩
        let last := if r.rest.isEmpty && max indent 1 ≤ r.mark.column then ['\n'] else []
        let text := match chomping with
          | .strip => block.text
          | .clip => last ++ block.lineEnd ++ block.text
          | .keep => List.replicate block.empty '\n' ++ last ++ block.lineEnd ++ block.text
        return (r, String.ofList text.reverse)

end Reading

end SieveFilter.Yaml
