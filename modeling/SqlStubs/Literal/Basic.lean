import SqlStubs.Text

/-!
# Literals: what can be wrong with one, and truth values
-/

namespace SqlStubs

/-- Why a literal has no value. -/
inductive LiteralFault where
  /-- It does not follow the rules. -/
  | invalid
  /-- Its value is too large or too small. -/
  | outOfRange
deriving Repr, DecidableEq

/-- The wording of a fault. -/
def LiteralFault.message : LiteralFault → Text
  | invalid => Text.utf8 "invalid syntax"
  | outOfRange => Text.utf8 "value out of range"

namespace Literal

/-- The spellings of true. -/
def trueWords : List String := ["1", "t", "T", "TRUE", "true", "True"]

/-- The spellings of false. -/
def falseWords : List String := ["0", "f", "F", "FALSE", "false", "False"]

/-- The truth value that a text spells. -/
def boolean (s : Text) : Except LiteralFault Bool :=
  if (trueWords.map Text.utf8).contains s then .ok true
  else if (falseWords.map Text.utf8).contains s then .ok false
  else .error .invalid

end Literal

end SqlStubs
