import SieveFilter.Yaml.Node
import SieveFilter.Yaml.Tokens

/-!
# YAML documents

The nodes that the tokens of a text stand for.  Where a node is awaited and none is there, it is null.  A node
with an anchor can be named again behind it; no key of a mapping may be given twice.
-/

namespace SieveFilter.Yaml

/-- What is known in the middle of a text: the tokens to come, the anchors by name with their numbers, the
nodes of the anchors by number, and what the handles of tags stand for. -/
structure Progress where
  tokens : List Token
  anchors : List (String × Nat)
  nodes : List (Nat × Node)
  handles : List (String × String)

namespace Progress

def peek (p : Progress) : Option Token :=
  p.tokens.head?

def skip (p : Progress) : Progress :=
  { p with tokens := p.tokens.tail }

/-- Gives an anchor the next number. -/
def register (p : Progress) (name : String) : Progress × Nat :=
  ({ p with anchors := (name, p.anchors.length) :: p.anchors }, p.anchors.length)

/-- Keeps the node of an anchor, if it has one. -/
def keep (p : Progress) (anchor : Option Nat) (node : Node) : Progress :=
  match anchor with
  | some number => { p with nodes := (number, node) :: p.nodes }
  | none => p

/-- What the tags of the core schema begin with. -/
def corePrefix : String := "tag:yaml.org,2002:"

/-- What the handle of a tag stands for.  Handles between two signs must be declared, but for the empty one. -/
def resolve (p : Progress) (handle : String) : Option String :=
  match p.handles.lookup handle with
  | some replacement => some replacement
  | none =>
    if handle = "!!" then some corePrefix
    else if 2 ≤ handle.length ∧ handle.startsWith "!" ∧ handle.endsWith "!" then none
    else some handle

end Progress

/-- What stands in front of a node: the number of its anchor, and its tag. -/
structure Properties where
  anchor : Option Nat
  tag : Option (String × String)

/-- Splits off a tag. -/
def readTag (p : Progress) : Option (Progress × Option (String × String)) :=
  match p.peek with
  | some (.tag handle suffix) => (p.resolve handle).map fun handle => (p.skip, some (handle, suffix))
  | _ => some (p, none)

def readAnchor (p : Progress) : Progress × Option Nat :=
  match p.peek with
  | some (.anchor name) =>
    let (p, number) := p.skip.register name
    (p, some number)
  | _ => (p, none)

/-- Splits off an anchor and a tag, in either order. -/
def readProperties (p : Progress) : Option (Progress × Properties) :=
  match readAnchor p with
  | (p, some number) => (readTag p).map fun (p, tag) => (p, ⟨some number, tag⟩)
  | (p, none) =>
    match readTag p with
    | some (p, some tag) =>
      let (p, anchor) := readAnchor p
      some (p, ⟨anchor, some tag⟩)
    | some (p, none) => some (p, ⟨none, none⟩)
    | none => none

/-- The node of a scalar. -/
def scalarNode (plain : Bool) (tag : Option (String × String)) (text : String) : Node :=
  if !plain then .text text
  else
    match tag with
    | none => .ofPlain text
    | some (handle, suffix) => if handle = Progress.corePrefix then .ofTagged suffix text else .text text

/-- The entries of a mapping with one more, if its key is another one.  An invalid key leaves its value out. -/
def addEntry (entries : List (Node × Node)) (key value : Node) : Option (List (Node × Node)) :=
  match key with
  | .invalid => some entries
  | key => if entries.any fun entry => entry.1.same key then none else some (entries ++ [(key, value)])

/-- Tokens in front of which an entry of a block mapping has no node. -/
def endsBlockNode : Option Token → Bool
  | some .key | some .value | some .blockEnd => true
  | _ => false

mutual

/-- Reads a node.  Block collections are not allowed in brackets and braces, and a sequence without an
indentation of its own only in a mapping. -/
def readNode (block loose : Bool) : Nat → Progress → Option (Progress × Node)
  | 0, _ => none
  | fuel + 1, p =>
    match p.peek with
    | some (.alias name) =>
      (p.anchors.lookup name).map fun number => (p.skip, (p.nodes.lookup number).getD .invalid)
    | _ =>
      match readProperties p with
      | none => none
      | some (p, properties) =>
        (readContent block loose fuel properties p).map fun (p, node) =>
          (p.keep properties.anchor node, node)

/-- Reads what a node is behind its anchor and tag. -/
def readContent (block loose : Bool) : Nat → Properties → Progress → Option (Progress × Node)
  | 0, _, _ => none
  | fuel + 1, properties, p =>
    match p.peek with
    | some .blockEntry =>
      if loose then (readLoose fuel [] p).map fun (p, items) => (p, .sequence items)
      else empty properties p
    | some (.scalar plain text) => some (p.skip, scalarNode plain properties.tag text)
    | some .flowSequenceStart =>
      (readFlowItems fuel true [] p.skip).map fun (p, items) => (p, .sequence items)
    | some .flowMappingStart =>
      (readFlowEntries fuel true [] p.skip).map fun (p, entries) => (p, .mapping entries)
    | some .blockSequenceStart =>
      if block then (readItems fuel [] p.skip).map fun (p, items) => (p, .sequence items)
      else empty properties p
    | some .blockMappingStart =>
      if block then (readEntries fuel [] p.skip).map fun (p, entries) => (p, .mapping entries)
      else empty properties p
    | _ => empty properties p
where
  empty (properties : Properties) (p : Progress) : Option (Progress × Node) :=
    if properties.anchor.isNone && properties.tag.isNone then none
    else some (p, scalarNode true properties.tag "")

/-- Reads the entries of a sequence that has no indentation of its own. -/
def readLoose : Nat → List Node → Progress → Option (Progress × List Node)
  | 0, _, _ => none
  | fuel + 1, items, p =>
    match p.peek with
    | some .blockEntry =>
      let p := p.skip
      if p.peek = some .blockEntry || endsBlockNode p.peek then readLoose fuel (items ++ [.null]) p
      else
        match readNode true false fuel p with
        | some (p, item) => readLoose fuel (items ++ [item]) p
        | none => none
    | _ => some (p, items)

def readItems : Nat → List Node → Progress → Option (Progress × List Node)
  | 0, _, _ => none
  | fuel + 1, items, p =>
    match p.peek with
    | some .blockEnd => some (p.skip, items)
    | some .blockEntry =>
      let p := p.skip
      if p.peek = some .blockEntry || p.peek = some .blockEnd then readItems fuel (items ++ [.null]) p
      else
        match readNode true false fuel p with
        | some (p, item) => readItems fuel (items ++ [item]) p
        | none => none
    | _ => none

def readEntries : Nat → List (Node × Node) → Progress → Option (Progress × List (Node × Node))
  | 0, _, _ => none
  | fuel + 1, entries, p =>
    match p.peek with
    | some .blockEnd => some (p.skip, entries)
    | some .key | some .value =>
      let key :=
        if p.peek = some .value then some (p, Node.null)
        else if endsBlockNode p.skip.peek then some (p.skip, Node.null)
        else readNode true true fuel p.skip
      match key with
      | none => none
      | some (p, key) =>
        let value :=
          if p.peek ≠ some .value then some (p, Node.null)
          else if endsBlockNode p.skip.peek then some (p.skip, Node.null)
          else readNode true true fuel p.skip
        match value with
        | none => none
        | some (p, value) =>
          match addEntry entries key value with
          | some entries => readEntries fuel entries p
          | none => none
    | _ => none

def readFlowItems : Nat → Bool → List Node → Progress → Option (Progress × List Node)
  | 0, _, _, _ => none
  | fuel + 1, first, items, p =>
    match p.peek with
    | some .flowSequenceEnd => some (p.skip, items)
    | next =>
      if !first && next ≠ some .flowEntry then none
      else
        let p := if first then p else p.skip
        match p.peek with
        | some .flowSequenceEnd => some (p.skip, items)
        | some .key =>
          match readPair fuel p.skip with
          | some (p, item) => readFlowItems fuel false (items ++ [item]) p
          | none => none
        | _ =>
          match readNode false false fuel p with
          | some (p, item) => readFlowItems fuel false (items ++ [item]) p
          | none => none

/-- Reads a pair without braces in a sequence in brackets. -/
def readPair : Nat → Progress → Option (Progress × Node)
  | 0, _ => none
  | fuel + 1, p =>
    let ends (token : Option Token) := token = some .flowEntry || token = some .flowSequenceEnd
    let key :=
      if p.peek = some .value || ends p.peek then some (p, Node.null) else readNode false false fuel p
    match key with
    | none => none
    | some (p, key) =>
      let value :=
        if p.peek ≠ some .value then some (p, Node.null)
        else if ends p.skip.peek then some (p.skip, Node.null)
        else readNode false false fuel p.skip
      match value with
      | none => none
      | some (p, value) => (addEntry [] key value).map fun entries => (p, .mapping entries)

def readFlowEntries :
    Nat → Bool → List (Node × Node) → Progress → Option (Progress × List (Node × Node))
  | 0, _, _, _ => none
  | fuel + 1, first, entries, p =>
    match p.peek with
    | some .flowMappingEnd => some (p.skip, entries)
    | next =>
      if !first && next ≠ some .flowEntry then none
      else
        let p := if first then p else p.skip
        let ends (token : Option Token) := token = some .flowEntry || token = some .flowMappingEnd
        let key : Option (Progress × Node × Bool) :=
          match p.peek with
          | some .key =>
            let p := p.skip
            if p.peek = some .value || ends p.peek then some (p, .null, true)
            else (readNode false false fuel p).map fun (p, key) => (p, key, true)
          | some .value => some (p, .null, true)
          | _ => (readNode false false fuel p).map fun (p, key) => (p, key, false)
        match if p.peek = some .flowMappingEnd then none else key with
        | none => if p.peek = some .flowMappingEnd then some (p.skip, entries) else none
        | some (p, key, mayHaveValue) =>
          let value :=
            if !mayHaveValue || p.peek ≠ some .value then some (p, Node.null)
            else if ends p.skip.peek then some (p.skip, Node.null)
            else readNode false false fuel p.skip
          match value with
          | none => none
          | some (p, value) =>
            match addEntry entries key value with
            | some entries => readFlowEntries fuel false entries p
            | none => none

end

/-- Tokens in front of which a document has no node. -/
def endsDocumentNode : Option Token → Bool
  | none | some .version | some (.tagHandle ..) | some .documentStart | some .documentEnd => true
  | _ => false

/-- Reads the directives in front of a document.  There is one version at most, and one meaning of a
handle. -/
def readDirectives : List Token → Bool → List (String × String) →
    Option (List Token × List (String × String))
  | .version :: rest, versioned, handles => if versioned then none else readDirectives rest true handles
  | .tagHandle handle replacement :: rest, versioned, handles =>
    if (handles.lookup handle).isSome then none
    else readDirectives rest versioned ((handle, replacement) :: handles)
  | tokens, _, handles => some (tokens, handles)

/-- Reads documents up to the end of the tokens.  A document needs a mark in front of it, unless it is the
first one or the one before has a mark at its end. -/
def readDocuments : Nat → Bool → Progress → Option (List Node)
  | 0, _, _ => none
  | fuel + 1, marked, p =>
    let p := { p with tokens := p.tokens.dropWhile (· == Token.documentEnd) }
    match p.tokens with
    | [] => some []
    | next :: _ =>
      let explicit := !marked || endsDocumentNode (some next)
      match readDirectives p.tokens false [] with
      | none => none
      | some (tokens, handles) =>
        if explicit && tokens.head? != some Token.documentStart then none
        else
          let p := { p with tokens := if explicit then tokens.tail else tokens, handles }
          let node :=
            if explicit && endsDocumentNode p.peek then some (p, Node.null)
            else readNode true false (3 * p.tokens.length + 3) p
          match node with
          | none => none
          | some (p, node) =>
            let ended := p.peek == some Token.documentEnd
            let p := if ended then p.skip else p
            let misplaced := match p.peek with
              | some .version | some (.tagHandle ..) => !ended
              | _ => false
            if misplaced then none else (readDocuments fuel ended p).map (node :: ·)

/-- The documents of a text. -/
def documents? (text : List Char) : Option (List Node) := do
  let tokens ← tokens? text
  readDocuments (tokens.length + 1) true ⟨tokens, [], [], []⟩

/-- The setting that the only document of a text stands for; none is an empty table. -/
def setting (text : List Char) : Except Failure Setting :=
  match documents? text with
  | some [] => .ok (.table [])
  | some [node] => node.setting
  | _ => .error .settings

end SieveFilter.Yaml
