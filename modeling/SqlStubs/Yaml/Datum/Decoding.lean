import SqlStubs.Yaml.Datum
import SqlStubs.Yaml.Node.Reading

/-!
# From nodes to data

A document whose root is a mapping means values by name (`Document.entries`).  An alias means what
its anchor names, once more.  The key `<<` merges other mappings into one: its own keys go before
theirs, and earlier mappings go before later ones.  Every value is looked at, also those that no one
asks for, as what is wrong with it is a fault of the document.
-/

namespace SqlStubs.Yaml

/-- What a node is asked to be. -/
inductive Wanted where
  | anything
  /-- A text, as which the keys of a named mapping are read. -/
  | name
  | mapping (named : Bool)
deriving Repr, DecidableEq

/-- The name of the form that is asked for. -/
def Wanted.form : Wanted → Text
  | anything => Text.utf8 "interface \x7b\x7d"
  | name => Text.utf8 "string"
  | mapping named => Datum.mappingForm named

/-- The state of decoding. -/
structure Decoder where
  document : Document
  /-- The number of nodes looked at; the document itself is the first. -/
  nodes : Nat := 1
  /-- How many of them were reached through aliases. -/
  aliased : Nat := 0
  /-- The places of the aliases around the node. -/
  aliases : List Nat := []
  /-- The keys that what is merged cannot set any more; none outside of merges. -/
  keys : Option (List Scalar) := none
  mismatches : Array Mismatch := #[]
deriving Repr

/-- A step of decoding. -/
abbrev Decode := StateT Decoder (Except Fault)

/-- A decoder of nodes.  It gives nothing for a node that is not what is wanted. -/
abbrev DecodeNode := Wanted → Node → Decode (Option Datum)

namespace Decode

/-- How large a part of the nodes aliases may make up, as a fraction: all but a hundredth at first,
and less and less the more nodes there are, down to a tenth. -/
def aliasShare (nodes : Nat) : Nat × Nat :=
  if nodes ≤ 400000 then (99, 100)
  else if 4000000 ≤ nodes then (10, 100)
  else (99 * 3600000 - 89 * (nodes - 400000), 100 * 3600000)

/-- Counts a node. -/
def count : Decode Unit := do
  modify fun s =>
    { s with nodes := s.nodes + 1, aliased := s.aliased + if s.aliases.isEmpty then 0 else 1 }
  let s ← get
  let (part, whole) := aliasShare s.nodes
  if 100 < s.aliased && 1000 < s.nodes && s.nodes * part < s.aliased * whole then
    throw .tooManyAliases

/-- Notes that a node is not what is wanted. -/
def mismatch (line : Nat) (tag value : Text) (wanted : Wanted) : Decode (Option Datum) := do
  modify fun s => { s with mismatches := s.mismatches.push (.form line tag value wanted.form) }
  return none

/-- The value of a step that may fail. -/
def ofExcept {α : Type} : Except Fault α → Decode α
  | .ok a => pure a
  | .error fault => throw fault

/-- Decodes a scalar.  A name is read as it is written, unless it is nothing; nothing is also an
empty mapping. -/
def scalar (wanted : Wanted) (line : Nat) (tag value : Text) : Decode (Option Datum) := do
  let s ← ofExcept (Scalar.ofTagged tag value)
  match wanted, s with
  | .anything, s => return some (.scalar s)
  | .name, .null => return none
  | .name, .text t => return some (.scalar (.text t))
  | .name, _ => return some (.scalar (.text value))
  | .mapping named, .null => return some (.mapping named [])
  | .mapping _, _ => mismatch line tag value wanted

/-- Decodes the items of a sequence. -/
def items (decode : DecodeNode) (nodes : List Node) : Decode (List Datum) :=
  nodes.filterMapM (decode .anything)

/-- The keys of a mapping that are given twice. -/
def repeatedKeys : List (Node × Node) → List Mismatch
  | [] => []
  | (key, _) :: rest =>
    ((rest.filter fun (other, _) => key.writtenAlike other).map fun (other, _) =>
      .repeatedKey other.written key.line other.line) ++ repeatedKeys rest

/-- Whether all keys of a mapping are texts. -/
def isNamed (d : Document) (entries : List (Node × Node)) : Bool :=
  entries.all fun (key, _) => d.tagOf key = Scalar.textTag || d.tagOf key = Scalar.mergeTag

/-- The scalar that a key is, where `fault` says what is wrong with other keys. -/
def keyScalar (key : Datum) (fault : Text → Fault) : Decode Scalar :=
  match key.scalar? with
  | .ok s => pure s
  | .error form => throw (fault form)

/-- Decodes the entries of a mapping that are not merged, in turn.  While a mapping is merged, keys
that are set already are left out, and their values are not looked at. -/
def ownEntries (decode : DecodeNode) (named : Bool) (keys : Option (List Scalar)) :
    List (Node × Node) → Decode (List (Scalar × Datum) × Option (List Scalar))
  | [] => return ([], keys)
  | (k, v) :: rest => do
    if k.isMerge then ownEntries decode named keys rest
    else
      match ← decode (if named then .name else .anything) k with
      | none => ownEntries decode named keys rest
      | some key =>
        match keys with
        | none =>
          let s ← keyScalar key fun _ => .compositeKey key.shown
          let value ← decode .anything v
          let (entries, keys) ← ownEntries decode named keys rest
          return ((value.map fun d => (s, d)).toList ++ entries, keys)
        | some known =>
          let s ← keyScalar key .mergedKey
          if known.contains s then ownEntries decode named keys rest
          else
            let value ← decode .anything v
            let (entries, keys) ← ownEntries decode named (some (s :: known)) rest
            return ((value.map fun d => (s, d)).toList ++ entries, keys)

/-- Notes the keys of a mapping before others are merged into it, unless this is done already. -/
def noteKeys (decode : DecodeNode) (entries : List (Node × Node)) : Decode Unit := do
  if (← get).keys.isNone then
    modify fun s => { s with keys := some [] }
    entries.forM fun (k, _) => do
      match ← decode .anything k with
      | none => pure ()
      | some key =>
        let k ← keyScalar key .mergedKey
        modify fun s => { s with keys := s.keys.map (k :: ·) }

/-- Whether a node is a mapping or an alias of one. -/
def isMergeable (d : Document) : Node → Bool
  | .mapping _ _ _ => true
  | .aliasOf _ _ target _ =>
    match d.target? target with
    | some (.mapping _ _ _) => true
    | _ => false
  | _ => false

/-- The entries that a node merges. -/
def mergedFrom (decode : DecodeNode) (named : Bool) (source : Node) :
    Decode (List (Scalar × Datum)) := do
  if !isMergeable (← get).document source then throw .merge
  match ← decode (.mapping named) source with
  | some (.mapping _ entries) => return entries
  | _ => return []

/-- The entries that are merged into a mapping from the value of its merge key. -/
def mergedEntries (decode : DecodeNode) (named : Bool) (entries : List (Node × Node)) :
    Decode (List (Scalar × Datum)) := do
  match (entries.filter (·.1.isMerge)).getLast? with
  | none => return []
  | some (_, value) =>
    let keys := (← get).keys
    noteKeys decode entries
    let merged ←
      match value with
      | .sequence _ _ sources => do
        let parts ← sources.mapM (mergedFrom decode named)
        pure parts.flatten
      | source => mergedFrom decode named source
    modify fun s => { s with keys }
    return merged

/-- Decodes a mapping, unless keys are given twice. -/
def mapping (decode : DecodeNode) (wanted : Wanted) (line : Nat) (tag : Text)
    (entries : List (Node × Node)) : Decode (Option Datum) := do
  let repeated := repeatedKeys entries
  if !repeated.isEmpty then
    modify fun s => { s with mismatches := s.mismatches ++ repeated }
    return none
  else
    let read (named : Bool) : Decode (Option Datum) := do
      let keys := (← get).keys
      modify fun s => { s with keys := none }
      let (own, keys) ← ownEntries decode named keys entries
      modify fun s => { s with keys }
      let merged ← mergedEntries decode named entries
      return some (.mapping named (own ++ merged))
    match wanted with
    | .anything => read (isNamed (← get).document entries)
    | .mapping named => read named
    | .name => mismatch line tag [] wanted

/-- Decodes what an alias stands for, unless the alias is a part of it. -/
def aliasOf (decode : DecodeNode) (wanted : Wanted) (name : Text) (target index : Nat) :
    Decode (Option Datum) := do
  let s ← get
  if s.aliases.contains index then throw (.endless name)
  match s.document.target? target with
  | none => return none
  | some node =>
    set { s with aliases := index :: s.aliases }
    let datum ← decode wanted node
    modify fun s => { s with aliases := s.aliases.drop 1 }
    return datum

/-- Decodes a node that holds others to a given depth, aliases included. -/
def node : (depth : Nat) → DecodeNode
  | 0, _, _ => return none
  | depth + 1, wanted, n => do
    count
    match n with
    | .aliasOf _ name target index => aliasOf (node depth) wanted name target index
    | .scalar line tag value => scalar wanted line tag value
    | .sequence line tag nodes =>
      if wanted = .anything then return some (.sequence (← items (node depth) nodes))
      else mismatch line tag [] wanted
    | .mapping line tag entries => mapping (node depth) wanted line tag entries

end Decode

/-- The values by name of a document whose root is a mapping.  An empty document has none. -/
def Document.entries (d : Document) : Except Fault (List (Scalar × Datum)) := do
  match d.root with
  | none => return []
  | some root =>
    -- no alias is within itself, so this is as deep as a document can get
    let depth := d.limit * d.limit
    let (datum, s) ← (Decode.node depth (.mapping true) root).run { document := d }
    if !s.mismatches.isEmpty then throw (.mismatches s.mismatches.toList)
    match datum with
    | some (.mapping _ entries) => return entries
    | _ => return []

end SqlStubs.Yaml
