import SqlStubs.Yaml.Node
import SqlStubs.Yaml.Token.Stream

/-!
# Reading nodes from tokens

A document is read by recursive descent on its tokens (`Document.read`).  What may be left out is
read as an empty scalar.  Reading stops after the first document.
-/

namespace SqlStubs.Yaml

/-- The state of a reader of nodes. -/
structure NodeReader where
  tokens : TokenReader
  /-- What the handles of tags stand for. -/
  handles : List (Text × Text) := []
  /-- The numbers of anchors by name, the latest first. -/
  anchors : List (Text × Nat) := []
  /-- The nodes with an anchor, as far as they are complete. -/
  anchored : List (Nat × Node) := []
deriving Repr

/-- A step of reading nodes. -/
abbrev Compose := StateT NodeReader (Except Fault)

namespace Compose

/-- Takes a step of reading tokens. -/
def scan {α : Type} (step : Scan α) : Compose α := do
  let r ← get
  match step.run r.tokens with
  | .error fault => throw fault
  | .ok (a, tokens) =>
    set { r with tokens }
    return a

/-- The next token. -/
def peek : Compose Token := scan Scan.peek

/-- Takes the next token. -/
def takeToken : Compose Unit := scan Scan.takeToken

/-- Takes the next token and gives the one after it. -/
def advance : Compose Token := do
  takeToken
  peek

/-- Repeats a step for as long as it asks for it.  Every time but the last it takes a token that was
written, so that the number of characters is a limit. -/
def loop {α : Type} (step : α → Compose (α × Bool)) (a : α) : Compose α := do
  repeatUpTo step (← get).tokens.limit a

/-- Ends with a problem at `place` within what begins at `start`. -/
def fail {α : Type} (problem : OrderProblem) (start place : Mark) : Compose α :=
  throw (.order problem start place)

/-! ### Anchors and tags -/

/-- What stands before the content of a node. -/
structure Label where
  anchor : Option Text := none
  /-- The tag with its handle expanded; empty without one. -/
  tag : Text := []
  /-- Where the node begins. -/
  start : Mark
deriving Repr, DecidableEq

/-- Reads an anchor, if there is one. -/
def anchor? : Compose (Option Text) := do
  match (← peek).kind with
  | .anchor name =>
    takeToken
    return some name
  | _ => return none

/-- Reads a tag, if there is one, and its place. -/
def tag? : Compose (Option (Text × Text × Mark)) := do
  let t ← peek
  match t.kind with
  | .tag handle suffix =>
    takeToken
    return some (handle, suffix, t.start)
  | _ => return none

/-- A tag with its handle expanded. -/
def expandTag (start : Mark) : Option (Text × Text × Mark) → Compose Text
  | none => return []
  | some ([], suffix, _) => return suffix
  | some (handle, suffix, place) => do
    match (← get).handles.lookup handle with
    | some expansion =>
      if (expansion ++ suffix).isEmpty then fail .unknownHandle start place
      return expansion ++ suffix
    | none => fail .unknownHandle start place

/-- Reads an anchor and a tag, in either order.  Whether the tag is known is only asked when the
token after them is read. -/
def label : Compose Label := do
  let start := (← peek).start
  let first ← anchor?
  let tag ← tag?
  let anchor ← if first.isNone && tag.isSome then anchor? else pure first
  let _ ← peek
  return { anchor, tag := ← expandTag start tag, start }

/-- The short tag of a node, given the one that it has without a label. -/
def Label.tagOr (l : Label) (other : Text) : Text :=
  if l.tag.isEmpty || l.tag = [0x21] then other else Scalar.shortTag l.tag

/-- The line of a node. -/
def Label.line (l : Label) : Nat := l.start.line + 1

/-- Reads a node with the anchor of its label, which aliases within the node already know. -/
def anchored (l : Label) (read : Compose Node) : Compose Node := do
  match l.anchor with
  | none => read
  | some name =>
    let number := (← get).anchors.length
    modify fun r => { r with anchors := (name, number) :: r.anchors }
    let node ← read
    modify fun r => { r with anchored := (number, node) :: r.anchored }
    return node

/-- The tag of a plain scalar without a label. -/
def plainTag (value : Text) : Text :=
  if value = Text.utf8 "<<" then Scalar.mergeTag else (Scalar.ofPlain value).tag

/-- The scalar with a label. -/
def scalarNode (l : Label) (value : Text) : ScalarStyle → Node
  | .plain => .scalar l.line (l.tagOr (plainTag value)) value
  | .marked => .scalar l.line (l.tagOr Scalar.textTag) value

/-! ### Collections

Each reader is given the reader of what it holds, by whether that may be a block collection and
whether it may be a sequence that is indented no further. -/

/-- A reader of nodes. -/
abbrev ReadNode := (block indentless : Bool) → Compose Node

/-- Reads the entries of a block sequence that begins at `start`. -/
def blockSequence (node : ReadNode) (start : Mark) : Compose (List Node) := do
  takeToken
  let items ← loop (fun items => do
    let t ← peek
    match t.kind with
    | .blockEntry =>
      match (← advance).kind with
      | .blockEntry | .blockEnd => return (items.push (Node.empty t.start), true)
      | _ => return (items.push (← node true false), true)
    | .blockEnd =>
      takeToken
      return (items, false)
    | _ => fail .blockEntry start t.start) #[]
  return items.toList

/-- Reads the entries of a sequence that is indented no further than the mapping around it. -/
def indentlessSequence (node : ReadNode) : Compose (List Node) := do
  let items ← loop (fun items => do
    let t ← peek
    match t.kind with
    | .blockEntry =>
      match (← advance).kind with
      | .blockEntry | .key | .value | .blockEnd =>
        return (items.push (Node.empty t.start), true)
      | _ => return (items.push (← node true false), true)
    | _ => return (items, false)) #[]
  return items.toList

/-- Reads a part of an entry of a block mapping after its sign, which stands at `place`. -/
def blockPart (node : ReadNode) (place : Mark) : Compose Node := do
  match (← advance).kind with
  | .key | .value | .blockEnd => return Node.empty place
  | _ => node true true

/-- Reads the value of an entry of a block mapping. -/
def blockValue (node : ReadNode) : Compose Node := do
  let t ← peek
  match t.kind with
  | .value => blockPart node t.start
  | _ => return Node.empty t.start

/-- Reads the entries of a block mapping that begins at `start`. -/
def blockMapping (node : ReadNode) (start : Mark) : Compose (List (Node × Node)) := do
  takeToken
  let entries ← loop (fun entries => do
    let t ← peek
    match t.kind with
    | .key =>
      let key ← blockPart node t.start
      let value ← blockValue node
      return (entries.push (key, value), true)
    | .blockEnd =>
      takeToken
      return (entries, false)
    | _ => fail .key start t.start) #[]
  return entries.toList

/-- Takes the comma before an entry of a flow collection, which only the first one has none of, and
gives the token after it. -/
def flowSeparator (first : Bool) (problem : OrderProblem) (start : Mark) (t : Token) :
    Compose Token := do
  if first then return t
  else if t.kind = .flowEntry then advance
  else fail problem start t.start

/-- Reads the value of an entry of a flow collection that ends with `close`. -/
def flowValue (node : ReadNode) (close : TokenKind) : Compose Node := do
  let t ← peek
  if t.kind = .value then
    let next ← advance
    if next.kind = .flowEntry || next.kind = close then return Node.empty next.start
    else node false false
  else return Node.empty t.start

/-- Reads a key and a value that stand alone in a flow sequence, after the sign of the key. -/
def flowPair (node : ReadNode) (place : Mark) : Compose Node := do
  let t ← advance
  let key ←
    match t.kind with
    | .value | .flowEntry | .flowSequenceEnd => do
      -- a key that is left out takes this token with it
      takeToken
      pure (Node.empty t.start)
    | _ => node false false
  let value ← flowValue node .flowSequenceEnd
  return .mapping (place.line + 1) mappingTag [(key, value)]

/-- Reads the entries of a flow sequence that begins at `start`. -/
def flowSequence (node : ReadNode) (start : Mark) : Compose (List Node) := do
  takeToken
  let (items, _) ← loop (fun (items, first) => do
    let t ← peek
    if t.kind = .flowSequenceEnd then
      takeToken
      return ((items, first), false)
    else
      let t ← flowSeparator first .sequenceEnd start t
      match t.kind with
      | .key => return ((items.push (← flowPair node t.start), false), true)
      | .flowSequenceEnd =>
        takeToken
        return ((items, false), false)
      | _ => return ((items.push (← node false false), false), true)) (#[], true)
  return items.toList

/-- Reads an entry of a flow mapping, which begins with the token `t`. -/
def flowEntry (node : ReadNode) (t : Token) : Compose (Node × Node) := do
  if t.kind = .key then
    let next ← advance
    let key ←
      match next.kind with
      | .value | .flowEntry | .flowMappingEnd => pure (Node.empty next.start)
      | _ => node false false
    return (key, ← flowValue node .flowMappingEnd)
  else
    let key ← node false false
    return (key, Node.empty (← peek).start)

/-- Reads the entries of a flow mapping that begins at `start`. -/
def flowMapping (node : ReadNode) (start : Mark) : Compose (List (Node × Node)) := do
  takeToken
  let (entries, _) ← loop (fun (entries, first) => do
    let t ← peek
    if t.kind = .flowMappingEnd then
      takeToken
      return ((entries, first), false)
    else
      let t ← flowSeparator first .mappingEnd start t
      if t.kind = .flowMappingEnd then
        takeToken
        return ((entries, false), false)
      else return ((entries.push (← flowEntry node t), false), true)) (#[], true)
  return entries.toList

/-! ### Nodes -/

/-- Reads an alias of a name that stands at `place`. -/
def aliasNode (name : Text) (place : Mark) : Compose Node := do
  match (← get).anchors.lookup name with
  | none => throw (.unknownAnchor name)
  | some target =>
    takeToken
    return .aliasOf (place.line + 1) name target place.index

/-- Reads a node that is no alias. -/
def content (node : ReadNode) (block indentless : Bool) : Compose Node := do
  let l ← label
  let t ← peek
  let sequence (read : Compose (List Node)) : Compose Node :=
    anchored l (return .sequence l.line (l.tagOr sequenceTag) (← read))
  let mapping (read : Compose (List (Node × Node))) : Compose Node :=
    anchored l (return .mapping l.line (l.tagOr mappingTag) (← read))
  match t.kind, block, indentless with
  | .blockEntry, _, true => sequence (indentlessSequence node)
  | .scalar value style, _, _ =>
    takeToken
    anchored l (return scalarNode l value style)
  | .flowSequenceStart, _, _ => sequence (flowSequence node t.start)
  | .flowMappingStart, _, _ => mapping (flowMapping node t.start)
  | .blockSequenceStart, true, _ => sequence (blockSequence node t.start)
  | .blockMappingStart, true, _ => mapping (blockMapping node t.start)
  | _, _, _ =>
    if l.anchor.isSome || !l.tag.isEmpty then anchored l (return scalarNode l [] .plain)
    else fail .content l.start t.start

/-- Reads a node that holds others to a given depth. -/
def node : (depth : Nat) → ReadNode
  | 0, _, _ => return Node.empty (← peek).start
  | depth + 1, block, indentless => do
    let t ← peek
    match t.kind with
    | .aliasName name => aliasNode name t.start
    | _ => content (node depth) block indentless

/-! ### Documents -/

/-- What handles stand for without a directive. -/
def commonHandles : List (Text × Text) :=
  [([0x21], [0x21]), ([0x21, 0x21], Scalar.longTagStart)]

/-- Reads the directives before a document. -/
def directives : Compose Unit := do
  let _ ← loop (fun versioned => do
    let t ← peek
    match t.kind with
    | .version major minor =>
      if versioned then fail .repeatedVersion {} t.start
      if !(major = 1 && minor = 1) then fail .otherVersion {} t.start
      takeToken
      return (true, true)
    | .handle handle expansion =>
      let r ← get
      if (r.handles.lookup handle).isSome then fail .repeatedHandle {} t.start
      set { r with handles := r.handles ++ [(handle, expansion)] }
      takeToken
      return (versioned, true)
    | _ => return (versioned, false)) false
  modify fun r => { r with handles := r.handles ++ commonHandles }

/-- Reads the node of a document. -/
def rootNode : Compose Node := do
  node (← get).tokens.limit true false

/-- Reads the node of the first document, if there is one. -/
def document : Compose (Option Node) := do
  match (← advance).kind with
  | .streamEnd => return none
  | .version _ _ | .handle _ _ | .documentStart =>
    directives
    let t ← peek
    if t.kind ≠ .documentStart then fail .documentStart {} t.start
    let t ← advance
    match t.kind with
    | .version _ _ | .handle _ _ | .documentStart | .documentEnd | .streamEnd =>
      return some (Node.empty t.start)
    | _ => return some (← rootNode)
  | _ =>
    directives
    return some (← rootNode)

end Compose

/-- The first document of a text. -/
def Document.read (s : Text) : Except Fault Document := do
  let steps : Compose (Option Node) := do
    -- the first token is the start of the stream
    let _ ← Compose.peek
    let root ← Compose.document
    -- what comes right after the document must still be a token
    if root.isSome then
      let _ ← Compose.peek
    return root
  let (root, r) ← steps.run { tokens := .ofText s }
  return { root, anchored := r.anchored, limit := r.tokens.limit }

end SqlStubs.Yaml
