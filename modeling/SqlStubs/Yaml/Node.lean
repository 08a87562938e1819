import SqlStubs.Yaml.Scalar

/-!
# The nodes of a YAML document

A document is a tree of nodes.  Aliases refer to nodes that have an anchor, by number: a later
anchor of the same name is another one, and a node may hold an alias of itself.
-/

namespace SqlStubs.Yaml

/-- A node of a document.  Lines are counted from one, and tags are short. -/
inductive Node where
  | scalar (line : Nat) (tag value : Text)
  | sequence (line : Nat) (tag : Text) (items : List Node)
  | mapping (line : Nat) (tag : Text) (entries : List (Node × Node))
  /-- What stands for the node with a number.  `index` is the place of the alias itself. -/
  | aliasOf (line : Nat) (name : Text) (target index : Nat)
deriving Repr

/-- A document: its node, if it has one, and the nodes with an anchor by their numbers. -/
structure Document where
  root : Option Node
  anchored : List (Nat × Node)
  /-- More than the number of characters. -/
  limit : Nat
deriving Repr

namespace Node

/-- The line on which a node begins. -/
def line : Node → Nat
  | scalar line _ _ => line
  | sequence line _ _ => line
  | mapping line _ _ => line
  | aliasOf line _ _ _ => line

/-- The written value of a scalar, and the name of an alias; collections have none. -/
def written : Node → Text
  | scalar _ _ value => value
  | aliasOf _ name _ _ => name
  | _ => []

/-- Whether two nodes are of the same kind and written alike.  Two sequences always are, and two
mappings. -/
def writtenAlike : Node → Node → Bool
  | scalar _ _ v, scalar _ _ w => v = w
  | sequence _ _ _, sequence _ _ _ => true
  | mapping _ _ _, mapping _ _ _ => true
  | aliasOf _ n _ _, aliasOf _ m _ _ => n = m
  | _, _ => false

/-- Whether a node is a key whose value is to be merged. -/
def isMerge : Node → Bool
  | scalar _ tag value => tag = Scalar.mergeTag && value = Text.utf8 "<<"
  | _ => false

/-- A scalar that is not written. -/
def empty (mark : Mark) : Node := scalar (mark.line + 1) Scalar.nullTag []

end Node

namespace Document

/-- The node that has an anchor with a number. -/
def target? (d : Document) (number : Nat) : Option Node := d.anchored.lookup number

/-- The tag of a node; an alias has that of its target. -/
def tagOf (d : Document) : Node → Text
  | .scalar _ tag _ => tag
  | .sequence _ tag _ => tag
  | .mapping _ tag _ => tag
  | .aliasOf _ _ target _ =>
    match d.target? target with
    | some (.scalar _ tag _) => tag
    | some (.sequence _ tag _) => tag
    | some (.mapping _ tag _) => tag
    | _ => []

end Document

end SqlStubs.Yaml
