import SqlStubs.Parser.Basic

/-!
# Names

A name is an identifier, plain or between double quotes, or a keyword that is not reserved.  A
qualified name is names with dots between them; only the last one is kept.
-/

namespace SqlStubs

/-- The inside of a quoted identifier, with doubled quotes made single. -/
def undouble : Text → Text
  | 0x22 :: 0x22 :: s => 0x22 :: undouble s
  | b :: s => b :: undouble s
  | [] => []

/-- The name that an identifier stands for. -/
def unquote : Text → Text
  | 0x22 :: b :: s => undouble (b :: s).dropLast
  | s => s

namespace Parser

/-- A name. -/
def identifier (expected : Expectation) : Parser Text := do
  let t ← current
  if t.kind.isName then
    next
    return unquote t.text
  else unexpected expected

/-- The last name of a qualified name. -/
def qualifiedName (expected : Expectation) : Parser Text := do
  let first ← identifier expected
  let others ← many (· = .dot) do
    next
    identifier expected
  return others.getLastD first

end Parser

end SqlStubs
