import SqlStubs.Table

/-!
# Return types by function name

The return types of the functions declared so far, from which aggregates infer their own type.  A
function that is declared again has its new type from then on (`ReturnTypes.get_insert`).
-/

namespace SqlStubs

/-- Return types by function name. -/
structure ReturnTypes where
  table : Table Text Text := {}
deriving Repr, DecidableEq

namespace ReturnTypes

/-- Records the return type of a function, in place of an earlier one of that name. -/
def insert (r : ReturnTypes) (name type : Text) : ReturnTypes := ⟨r.table.insert name type⟩

/-- The return type of a function; empty if it is not known. -/
def get (r : ReturnTypes) (name : Text) : Text := (r.table.get? name).getD []

/-- The number of known functions. -/
def size (r : ReturnTypes) : Nat := r.table.size

/-- Inserting changes what is known of one name only. -/
theorem get_insert (r : ReturnTypes) (name type other : Text) :
    (r.insert name type).get other = if other = name then type else r.get other := by
  simp only [get, insert, Table.get?_insert]
  split <;> rfl

end ReturnTypes

end SqlStubs
