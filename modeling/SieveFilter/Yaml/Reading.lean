import SieveFilter.Yaml.Token

/-!
# Reading YAML tokens

How far a text is read, and what the tokens to come depend on: the indentation of the collections that are
open, and the token that turns out to be a key if a colon follows it.
-/

namespace SieveFilter.Yaml

/-- A place in a text: the line, the column in it, and the number of characters before it. -/
structure Mark where
  line : Nat
  column : Nat
  offset : Nat
  deriving DecidableEq, Repr

/-- An indentation: the one around it, and whether it is that of a block collection, which ends with it. -/
structure Indent where
  outer : Int
  isBlock : Bool
  deriving DecidableEq, Repr

/-- A token that may be a key: the number of tokens in front of it, and its place.  It must be a key if no
other token may stand there. -/
structure PossibleKey where
  possible : Bool
  required : Bool
  index : Nat
  mark : Mark
  deriving DecidableEq, Repr

/-- No token that may be a key. -/
def PossibleKey.none : PossibleKey :=
  ⟨false, false, 0, ⟨0, 0, 0⟩⟩

/-- The state of reading.  `outerKeys` are the possible keys of the collections in brackets and braces around
the innermost one, `pairs` tells of the sequences in brackets that are open, innermost first, whether a pair
without braces is begun in it, and `adjacent` is the place where a value may follow without a blank. -/
structure Reading where
  rest : List Char
  mark : Mark
  fresh : Bool
  indent : Int
  indents : List Indent
  keyAllowed : Bool
  key : PossibleKey
  outerKeys : List PossibleKey
  inFlowMapping : Bool
  pairs : List Bool
  adjacent : Nat
  tokens : Array Token

namespace Reading

def start (text : List Char) : Reading where
  rest := text
  mark := ⟨0, 0, 0⟩
  fresh := true
  indent := -1
  indents := []
  keyAllowed := true
  key := .none
  outerKeys := []
  inFlowMapping := false
  pairs := []
  adjacent := 0
  tokens := #[]

/-- Inside brackets or braces indentation does not count. -/
def inFlow (r : Reading) : Bool :=
  !r.outerKeys.isEmpty

/-- The column as one that indentations are compared with. -/
def column (r : Reading) : Int :=
  r.mark.column

/-- One character on, which is a blank. -/
def blank (r : Reading) : Reading :=
  { r with
    rest := r.rest.tail
    mark := { r.mark with column := r.mark.column + 1, offset := r.mark.offset + 1 } }

/-- Some characters on, none of them a line end. -/
def skip (r : Reading) (count : Nat) : Reading :=
  { r with
    rest := r.rest.drop count
    mark := { r.mark with column := r.mark.column + count, offset := r.mark.offset + count }
    fresh := false }

/-- Behind the end of the line. -/
def newLine (r : Reading) : Reading :=
  let (count, rest) := match r.rest with
    | '\r' :: '\n' :: rest => (2, rest)
    | _ :: rest => (1, rest)
    | [] => (0, [])
  { r with rest, mark := ⟨r.mark.line + 1, 0, r.mark.offset + count⟩, fresh := true }

def push (r : Reading) (token : Token) : Reading :=
  { r with tokens := r.tokens.push token }

/-- Puts a token in front of those from an index on. -/
def insert (r : Reading) (index : Nat) (token : Token) : Reading :=
  { r with tokens := (r.tokens.extract 0 index).push token ++ r.tokens.extract index r.tokens.size }

/-- Allows the next token to be a key, or forbids it. -/
def allowKey (r : Reading) (allowed : Bool) : Reading :=
  { r with keyAllowed := allowed }

/-- Notes that the next token may be a key, where one is allowed.  In a block mapping it must be one. -/
def noteKey (r : Reading) : Reading :=
  if r.keyAllowed then
    let inBlock := match r.indents with
      | indent :: _ => indent.isBlock
      | [] => false
    let required := !r.inFlow && r.indent == r.column && inBlock
    { r with key := ⟨true, required, r.tokens.size, r.mark⟩ }
  else r

/-- Gives up the token that may be a key, unless it must be one. -/
def dropKey (r : Reading) : Option Reading :=
  if r.key.possible && r.key.required then none
  else some { r with key := { r.key with possible := false } }

/-- Gives up a token that may be a key if it is on an earlier line or too far away. -/
def dropStaleKey (r : Reading) : Option Reading :=
  let key := r.key
  if key.possible && !r.inFlow && (key.mark.line < r.mark.line || key.mark.offset + 1024 < r.mark.offset) then
    r.dropKey
  else some r

/-- Ends the block collections that are indented deeper than a column. -/
def unroll (column : Int) (r : Reading) : Reading :=
  if r.inFlow then r else go r.indents r
where
  go : List Indent → Reading → Reading
    | [], r => { r with indents := [] }
    | indent :: outer, r =>
      if column < r.indent then
        let r := { r with indent := indent.outer, indents := outer }
        go outer (if indent.isBlock then r.push .blockEnd else r)
      else { r with indents := indent :: outer }

/-- Drops the indentations that are not those of block collections. -/
def unrollLoose (r : Reading) : Reading :=
  go r.indents r
where
  go : List Indent → Reading → Reading
    | [], r => { r with indents := [] }
    | indent :: outer, r =>
      if indent.isBlock then { r with indents := indent :: outer }
      else go outer { r with indent := indent.outer, indents := outer }

/-- Begins a block collection at a column if it is deeper than the indentation.  The token for it goes in
front of those from an index on. -/
def roll (r : Reading) (column index : Nat) (token : Token) : Reading :=
  if r.inFlow then r
  else
    let r := match r.indents with
      | ⟨outer, false⟩ :: indents =>
        if r.indent ≤ column then { r with indent := outer, indents } else r
      | _ => r
    if r.indent < (column : Int) then
      { r with indent := column, indents := ⟨r.indent, true⟩ :: r.indents }.insert index token
    else r

/-- Asks for one column more of indentation in a block collection. -/
def rollOne (r : Reading) : Reading :=
  match r.indents with
  | ⟨_, true⟩ :: _ =>
    if r.inFlow then r else { r with indent := r.indent + 1, indents := ⟨r.indent, false⟩ :: r.indents }
  | _ => r

/-- What is found on the way to the next character of a line: a tabulator, and any blank but it. -/
structure Gap where
  tabs : Bool
  spaces : Bool

/-- The state behind the blanks and the comment in front of the end of a line.  A comment must have a blank
in front of it. -/
def skipInLine (r : Reading) (tabsToo : Bool) : Option (Reading × Gap) :=
  go r.rest.length ⟨false, false⟩ r
where
  go : Nat → Gap → Reading → Option (Reading × Gap)
    | 0, gap, r => some (r, gap)
    | fuel + 1, gap, r =>
      match r.rest with
      | ' ' :: _ => go fuel { gap with spaces := true } r.blank
      | '\t' :: _ => if tabsToo then go fuel { gap with tabs := true } r.blank else some (r, gap)
      | '#' :: rest =>
        if gap.tabs || gap.spaces then
          some (r.skip ((rest.takeWhile (!isBreak ·)).length + 1), gap)
        else none
      | _ => some (r, gap)

/-- The state at the next token.  Tabulators do not indent what stands in a block collection. -/
def skipToToken (r : Reading) : Option Reading :=
  go (r.rest.length + 1) r
where
  go : Nat → Reading → Option Reading
    | 0, r => some r
    | fuel + 1, r =>
      match r.rest with
      | [] => some r
      | c :: rest =>
        if c = '\t' ∧ r.fresh ∧ !r.indents.isEmpty ∧ r.column < r.indent then
          match r.skipInLine true with
          | some (r, _) => if atLineEnd r.rest then go fuel r else none
          | none => none
        else if isBlank c then go fuel r.blank
        else if isBreak c then
          let r := r.newLine
          go fuel (if r.inFlow then r else r.allowKey true)
        else if c = '#' then go fuel (r.skip ((rest.takeWhile (!isBreak ·)).length + 1))
        else some r

def endPair (r : Reading) : Reading :=
  match r.pairs with
  | true :: outer => { r with inFlowMapping := false, pairs := false :: outer }.push .flowMappingEnd
  | _ => r

end Reading

end SieveFilter.Yaml
