import SqlStubs.Yaml.Fault

/-!
# The tokens of a YAML document

Besides what is written, tokens say where block collections begin and end, which only the layout
shows, and where the keys are.
-/

namespace SqlStubs.Yaml

/-- How a scalar is written. -/
inductive ScalarStyle where
  | plain
  /-- Between quotes, or as a block of lines. -/
  | marked
deriving Repr, DecidableEq

/-- What a token is. -/
inductive TokenKind where
  | streamStart | streamEnd
  | version (major minor : Nat)
  | handle (handle expansion : Text)
  | documentStart | documentEnd
  | blockSequenceStart | blockMappingStart | blockEnd
  | flowSequenceStart | flowSequenceEnd | flowMappingStart | flowMappingEnd
  | blockEntry | flowEntry | key | value
  | aliasName (name : Text)
  | anchor (name : Text)
  | tag (handle suffix : Text)
  | scalar (value : Text) (style : ScalarStyle)
deriving Repr, DecidableEq

/-- A token and where it begins. -/
structure Token where
  kind : TokenKind
  start : Mark
deriving Repr, DecidableEq

end SqlStubs.Yaml
