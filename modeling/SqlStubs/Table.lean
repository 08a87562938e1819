import SqlStubs.Text

/-!
# Tables

Values by key, in order of first insertion.  The view is `Table.get?`: inserting changes the value
of one key and of no other (`Table.get?_insert`).
-/

namespace SqlStubs

/-- Values by key. -/
structure Table (κ α : Type) where
  entries : List (κ × α) := []
deriving Repr, DecidableEq

namespace Table

variable {κ α : Type} [DecidableEq κ]

/-- The entries with the value of `key` replaced, or added at the end. -/
def put (key : κ) (value : α) : List (κ × α) → List (κ × α)
  | [] => [(key, value)]
  | (k, v) :: rest => if k = key then (k, value) :: rest else (k, v) :: put key value rest

/-- The table with a value for a key, in place of an earlier one. -/
def insert (t : Table κ α) (key : κ) (value : α) : Table κ α := ⟨put key value t.entries⟩

/-- The value of a key. -/
def get? (t : Table κ α) (key : κ) : Option α := t.entries.lookup key

/-- The number of keys with a value. -/
def size (t : Table κ α) : Nat := t.entries.length

/-- The table with the entries of a list, later ones in place of earlier ones. -/
def ofList (entries : List (κ × α)) : Table κ α :=
  entries.foldl (fun t (key, value) => t.insert key value) {}

@[simp] theorem get?_empty (key : κ) : ({} : Table κ α).get? key = none := rfl

/-- Replacing or adding an entry changes the value of its key only. -/
theorem lookup_put (key other : κ) (value : α) (entries : List (κ × α)) :
    (put key value entries).lookup other
      = if other = key then some value else entries.lookup other := by
  induction entries with
  | nil =>
    by_cases h : other = key
    · simp [put, h]
    · simp [put, List.lookup_cons, beq_false_of_ne h, h]
  | cons e rest ih =>
    obtain ⟨k, v⟩ := e
    unfold put
    -- the entry is replaced here or further on
    by_cases hk : k = key
    · by_cases h : other = key
      · simp [hk, h]
      · simp [hk, List.lookup_cons, beq_false_of_ne h, h]
    · by_cases h : other = k
      · simp [h, hk]
      · simp [hk, List.lookup_cons, beq_false_of_ne h, ih]

/-- Inserting changes the value of one key only. -/
theorem get?_insert (t : Table κ α) (key other : κ) (value : α) :
    (t.insert key value).get? other = if other = key then some value else t.get? other :=
  lookup_put key other value t.entries

end Table

end SqlStubs
