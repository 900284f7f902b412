import SieveFilter.Yaml.Scalar

/-!
# The tokens of a YAML text

What a text begins with decides the next token, together with the place it stands at: outside brackets and
braces the indentation opens and closes collections, and a dash, a question mark or a colon is a sign of its
own only with a gap behind it.
-/

namespace SieveFilter.Yaml

open Text (Numeral.digitsFrom)

namespace Reading

/-- Reads a number of at most nine digits. -/
def versionNumber (text : List Char) : Option (List Char) :=
  let (digits, rest) := text.span Char.isDigit
  if digits = [] ∨ 9 < digits.length then none else some rest

/-- The text behind the two numbers of a version. -/
def afterVersion? (text : List Char) : Option (List Char) := do
  match ← versionNumber (text.dropWhile isBlank) with
  | '.' :: rest => versionNumber rest
  | _ => none

/-- Reads a directive, which takes a line: the version, what a handle of tags stands for, or one that is not
known and has no meaning. -/
def directive (r : Reading) : Option Reading := do
  let r ← (r.unroll (-1)).dropKey
  let r := (r.allowKey false).skip 1
  let (name, rest) := r.rest.span isWordChar
  if name = [] ∨ !atGap rest then none
  else
    let line := rest.takeWhile (!isBreak ·)
    let (token, behind) ←
      if name = ['Y', 'A', 'M', 'L'] then (afterVersion? rest).map (Token.version, ·)
      else if name = ['T', 'A', 'G'] then
        let (handle, rest) := (rest.dropWhile isBlank).span fun c => !isBlank c && !isBreak c
        let (replacement, rest) := (rest.dropWhile isBlank).span fun c => !isBlank c && !isBreak c
        if handle.head? = some '!' ∧ replacement ≠ [] then
          some (.tagHandle (String.ofList handle) (String.ofList replacement), rest)
        else none
      else some (.tagHandle "" "", rest.drop line.length)
    let (r, _) ← (r.skip (r.rest.length - behind.length)).skipInLine true
    if atLineEnd r.rest then some ((if r.rest.isEmpty then r else r.newLine).push token) else none

def documentMark (r : Reading) (token : Token) : Option Reading := do
  let r ← (r.unroll (-1)).dropKey
  return ((r.allowKey false).skip 3).push token

def openFlow (r : Reading) (token : Token) : Option Reading := do
  let r := r.noteKey.rollOne
  let r := { r with key := .none, outerKeys := r.key :: r.outerKeys, keyAllowed := true }
  let r := if token = .flowMappingStart then { r with inFlowMapping := true }
    else { r with pairs := false :: r.pairs }
  let (r, _) ← (r.skip 1).skipInLine true
  if 255 < r.outerKeys.length then none else some (r.push token)

/-- Reads the end of a collection in brackets or braces.  It may be a key whose value follows at once. -/
def closeFlow (r : Reading) (token : Token) : Option Reading := do
  let r ← r.dropKey
  let r := match r.outerKeys with
    | key :: outer => { r with key, outerKeys := outer }
    | [] => r
  let r := r.allowKey false
  let r := if token = .flowSequenceEnd then { r.endPair with pairs := r.endPair.pairs.tail } else r
  let (r, _) ← (r.skip 1).skipInLine true
  let r := if r.inFlow then { r with adjacent := r.mark.offset } else r
  return r.push token

def entryFlow (r : Reading) : Option Reading := do
  let r := ((← r.dropKey).allowKey true).endPair
  let (r, _) ← (r.skip 1).skipInLine true
  return r.push .flowEntry

/-- A tag or an anchor in the first column may not stand in front of the entries of a sequence that is in a
collection. -/
def afterLooseMark (r : Reading) (start : Nat) : Bool :=
  match r.tokens.back? with
  | some (.anchor _) | some (.tag ..) => r.mark.column == 0 && start == 0 && -1 < r.indent
  | _ => false

def entryBlock (r : Reading) (markColumn : Nat) : Option Reading := do
  if r.inFlow || !r.keyAllowed || r.afterLooseMark markColumn then none
  else
    let r := (r.skip 1).roll r.mark.column r.tokens.size .blockSequenceStart
    let (r, gap) ← r.skipInLine true
    let dashed := match r.rest with
      | '-' :: rest => atGap rest
      | _ => false
    if gap.tabs && dashed then none
    else
      let (r, _) ← r.skipInLine false
      let opens := match r.rest with
        | c :: _ => isBreak c || isFlow c
        | [] => false
      let r ← (if opens then r.rollOne else r).dropKey
      return (r.allowKey true).push .blockEntry

/-- The state behind the blanks, line ends and comments at a place, of which there must be some. -/
def skipLines (r : Reading) : Option Reading :=
  go (r.rest.length + 1) false r
where
  go : Nat → Bool → Reading → Option Reading
    | 0, found, r => if found then some r else none
    | fuel + 1, found, r =>
      match r.rest with
      | [] => if found then some r else none
      | c :: rest =>
        if c = ' ' then go fuel true r.blank
        else if isBreak c then
          let r := r.newLine
          go fuel true (if r.inFlow then r else r.allowKey true)
        else if c = '#' then go fuel found (r.skip ((rest.takeWhile (!isBreak ·)).length + 1))
        else if found then some r
        else none

def keySign (r : Reading) : Option Reading := do
  if !r.inFlow && !r.keyAllowed then none
  else
    let r := if r.inFlow then { r with inFlowMapping := true }
      else r.roll r.mark.column r.tokens.size .blockMappingStart
    let r ← r.dropKey
    let r ← ((r.allowKey !r.inFlow).skip 1).skipLines
    if r.rest.head? = some '\t' then none else some (r.push .key)

/-- The state behind a colon.  Only a tabulator behind it is no gap for a word. -/
def skipColon (r : Reading) : Option Reading := do
  let r := r.skip 1
  if r.rest.head? = some '\t' then
    let (r, gap) ← r.skipInLine true
    let wordFollows := (r.rest.head?.map isWordChar).getD false
    if !gap.spaces && wordFollows then none else some r
  else some r

/-- Reads the colon of a value.  The token that may be a key is one now, and opens a mapping if it is
indented deeper than what it stands in; in a sequence in brackets it opens a pair without braces. -/
def valueSign (r : Reading) : Option Reading := do
  let key := r.key
  let mark := r.mark
  let opensPair := !r.pairs.isEmpty && !r.inFlowMapping
  let r := if opensPair then { r with pairs := true :: r.pairs.tail } else r
  let r ← r.skipColon
  if key.possible then
    if opensPair && key.mark.line < mark.line then none
    else
      let r := r.insert key.index .key
      let r := if opensPair then r.insert key.index .flowMappingStart else r
      let r := (r.roll key.mark.column key.index .blockMappingStart).rollOne
      let r := { r with key := { r.key with possible := false } }
      return (r.allowKey false).push .value
  else
    let r := if opensPair then r.push .flowMappingStart else r
    if r.inFlow then return ((r.rollOne).allowKey false).push .value
    else if !r.keyAllowed then none
    else
      let r := (r.roll mark.column r.tokens.size .blockMappingStart).rollOne
      return (r.allowKey true).push .value

/-- Reads the name of an anchor, or of the anchor that an alias stands for. -/
def anchorName (r : Reading) (token : String → Token) : Option Reading :=
  let r := (r.noteKey.allowKey false).skip 1
  let name := r.rest.takeWhile fun c => !isBlank c && !isBreak c && !isFlow c
  if name = [] then none else some ((r.skip name.length).push (token (String.ofList name)))

/-- Signs that may stand in tags anywhere. -/
def tagSigns : List Char :=
  [';', '/', '?', ':', '@', '&', '=', '+', '$', '.', '~', '*', '\'', '(', ')', '%', '#']

/-- Characters of tags.  Some more signs may stand in them outside brackets and braces. -/
def isTagChar (inFlow : Bool) (c : Char) : Bool :=
  isWordChar c || tagSigns.contains c || !inFlow && [',', '[', ']', '!'].contains c

/-- Splits off a tag behind its first sign: its handle, its suffix, and the rest. -/
def tagParts (inFlow : Bool) (text : List Char) : Option (String × String × List Char) :=
  match text with
  | '<' :: rest =>
    match rest.span (· != '>') with
    | (_ :: _, '>' :: rest) => some ("", "", rest)
    | _ => none
  | text =>
    let (name, rest) := text.span isWordChar
    match rest with
    | '!' :: rest =>
      match rest.span (isTagChar inFlow) with
      | ([], _) => none
      | (suffix, rest) => some (String.ofList ('!' :: name ++ ['!']), String.ofList suffix, rest)
    | _ =>
      let (suffix, rest) := text.span (isTagChar inFlow)
      if suffix = [] then some ("", "!", rest) else some ("!", String.ofList suffix, rest)

/-- Reads a tag, which must have a gap behind it. -/
def tagSign (r : Reading) : Option Reading := do
  let r := (r.noteKey.allowKey false).skip 1
  let (handle, suffix, rest) ← tagParts r.inFlow r.rest
  let flowFollows := (rest.head?.map isFlow).getD false
  if atGap rest || r.inFlow && flowFollows then
    some ((r.skip (r.rest.length - rest.length)).push (.tag handle suffix))
  else none

/-- Reads a text without quotes as a token. -/
def plainToken (r : Reading) : Option Reading :=
  (r.noteKey.allowKey false).readPlain.map fun (r, text) => r.push (.scalar true text)

/-- Reads a text in quotes as a token.  A value may follow it at once if it is a key in brackets or braces. -/
def quotedToken (r : Reading) (quote : Char) : Option Reading := do
  let (r, text) ← (r.noteKey.allowKey false).readQuoted quote
  let r ← r.skipToToken
  return { r with adjacent := r.mark.offset }.push (.scalar false text)

def blockToken (r : Reading) (literal : Bool) : Option Reading :=
  (r.noteKey.allowKey true).readBlock literal |>.map fun (r, text) => r.push (.scalar false text)

/-- Reads the token that a sign begins; `markColumn` is the column of the token before it. -/
def token (r : Reading) (markColumn : Nat) (c : Char) (rest : List Char) : Option Reading :=
  let nextIsFlow := (rest.head?.map isFlow).getD false
  match c with
  | '[' => r.openFlow .flowSequenceStart
  | '\x7b' => r.openFlow .flowMappingStart
  | ']' => r.closeFlow .flowSequenceEnd
  | '\x7d' => r.closeFlow .flowMappingEnd
  | ',' => r.entryFlow
  | '*' => r.anchorName .alias
  | '&' => r.anchorName .anchor
  | '!' => r.tagSign
  | '\'' | '"' => r.quotedToken c
  | '-' => if atGap rest then r.entryBlock markColumn else r.plainToken
  | '?' => if atGap rest then r.keySign else r.plainToken
  | ':' =>
    if atGap rest || r.inFlow && (nextIsFlow || r.mark.offset == r.adjacent) then r.valueSign
    else r.plainToken
  | '|' | '>' => if r.inFlow then r.plainToken else r.blockToken (c == '|')
  | '%' | '@' => none
  | c => if c.toNat = 0x60 then none else r.plainToken

/-- Reads the next token and those that its indentation closes; none are left at the end of the text.  The
second result is the column that the token stands at. -/
def next (r : Reading) (markColumn : Nat) : Option (Reading × Nat) := do
  let r ← (← r.skipToToken).dropStaleKey
  let r := r.unroll r.column
  let column := r.mark.column
  let read ← match r.rest with
    | [] => (r.unroll (-1)).dropKey
    | c :: rest =>
      if column = 0 ∧ c = '%' then r.directive
      else if column = 0 ∧ startsDocument r.rest then r.documentMark .documentStart
      else if column = 0 ∧ endsDocument r.rest then do
        let (r, _) ← (← r.documentMark .documentEnd).skipInLine true
        if atLineEnd r.rest then some r else none
      else if r.column < r.indent then none
      else r.token markColumn c rest
  return (read, column)

/-- Reads all tokens. -/
def run : Nat → Nat → Reading → Option Reading
  | 0, _, _ => none
  | fuel + 1, markColumn, r => do
    let (r, markColumn) ← r.next markColumn
    if r.rest.isEmpty then
      let (r, _) ← r.next markColumn
      return r
    else run fuel markColumn r

end Reading

/-- The tokens of a text, which ends where a zero character stands.  Every round takes at least one
character. -/
def tokens? (text : List Char) : Option (List Token) :=
  let text := text.takeWhile (· != '\x00')
  (Reading.run (text.length + 1) 0 (.start text)).map fun r => r.tokens.toList

end SieveFilter.Yaml
