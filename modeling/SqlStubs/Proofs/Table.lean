import Mathlib.Data.List.Nodup
import SqlStubs.Table

/-!
# The keys of a table

Every key of a table that is made by inserting stands there once (`nodup_keys_insert`).  A table
that is made from a list holds the last entry of every key (`get?_ofList`), and so all entries of
the list if their keys differ (`get?_ofList_eq_some_iff`).
-/

namespace SqlStubs.Table

variable {κ α : Type} [DecidableEq κ] {t : Table κ α} {key other : κ} {value : α}
  {entries more : List (κ × α)}

/-- The keys with a value. -/
def keys (t : Table κ α) : List κ := t.entries.map Prod.fst

/-! ### Inserting -/

theorem map_fst_put :
    (put key value entries).map Prod.fst = if key ∈ entries.map Prod.fst then entries.map Prod.fst
      else entries.map Prod.fst ++ [key] := by
  induction entries with
  | nil => simp [put]
  | cons e rest ih =>
    obtain ⟨k, v⟩ := e
    rw [put]
    by_cases hk : k = key
    · simp [hk]
    · by_cases hrest : key ∈ rest.map Prod.fst
      · have hmem : key ∈ k :: rest.map Prod.fst := List.mem_cons_of_mem k hrest
        simp only [if_neg hk, List.map_cons, ih, if_pos hrest, if_pos hmem]
      · have hnot : key ∉ k :: rest.map Prod.fst := by
          rw [List.mem_cons]
          exact not_or.2 ⟨Ne.symm hk, hrest⟩
        simp only [if_neg hk, List.map_cons, ih, if_neg hrest, if_neg hnot, List.cons_append]

theorem mem_keys_insert : other ∈ (t.insert key value).keys ↔ other = key ∨ other ∈ t.keys := by
  show other ∈ (put key value t.entries).map Prod.fst ↔ other = key ∨ other ∈ t.keys
  rw [map_fst_put]
  split
  · rename_i hkey
    exact ⟨.inr, fun h => h.elim (fun h => h ▸ hkey) id⟩
  · simp [keys, or_comm]

theorem nodup_keys_insert (h : t.keys.Nodup) : (t.insert key value).keys.Nodup := by
  show ((put key value t.entries).map Prod.fst).Nodup
  rw [map_fst_put]
  split
  · exact h
  · rename_i hkey
    refine List.nodup_append.2 ⟨h, List.nodup_singleton key, fun k hk other hother hsame => ?_⟩
    rw [List.mem_singleton] at hother
    exact hkey (hother ▸ hsame ▸ hk)

/-! ### Looking up -/

omit [DecidableEq κ] in
theorem lookup_eq_some_iff_mem [BEq κ] [LawfulBEq κ] (h : (entries.map Prod.fst).Nodup) :
    entries.lookup key = some value ↔ (key, value) ∈ entries := by
  induction entries with
  | nil => simp
  | cons e rest ih =>
    obtain ⟨k, v⟩ := e
    rw [List.map_cons, List.nodup_cons] at h
    by_cases hk : key = k
    · -- no later entry has the key of the first
      have hrest : (k, value) ∉ rest := fun hmem => h.1 (List.mem_map.2 ⟨_, hmem, rfl⟩)
      subst hk
      simp [hrest, eq_comm]
    · rw [List.lookup_cons, beq_false_of_ne hk, List.mem_cons, ih h.2]
      simp [hk]

theorem get?_eq_some_iff_mem (h : t.keys.Nodup) :
    t.get? key = some value ↔ (key, value) ∈ t.entries :=
  lookup_eq_some_iff_mem h

/-- Of several entries with the same key the last counts. -/
theorem get?_ofList : (ofList entries).get? key = entries.reverse.lookup key := by
  -- for the induction: begin with any table, which is asked last
  suffices h : ∀ t : Table κ α, (entries.foldl (fun t e => t.insert e.1 e.2) t).get? key =
      (entries.reverse.lookup key).or (t.get? key) by
    exact (h {}).trans Option.or_none
  induction entries with
  | nil => exact fun t => rfl
  | cons e rest ih =>
    intro t
    obtain ⟨k, v⟩ := e
    rw [List.foldl_cons, ih, get?_insert, List.reverse_cons, List.lookup_append, Option.or_assoc]
    congr 1
    by_cases hkey : key = k
    · simp [hkey]
    · simp [List.lookup_cons, beq_false_of_ne hkey, hkey]

theorem get?_ofList_append :
    (ofList (entries ++ more)).get? key =
      ((ofList more).get? key).or ((ofList entries).get? key) := by
  simp only [get?_ofList, List.reverse_append, List.lookup_append]

theorem get?_ofList_eq_some_iff (h : (entries.map Prod.fst).Nodup) :
    (ofList entries).get? key = some value ↔ (key, value) ∈ entries := by
  have hreverse : (entries.reverse.map Prod.fst).Nodup := by
    rwa [List.map_reverse, List.nodup_reverse]
  rw [get?_ofList, lookup_eq_some_iff_mem hreverse, List.mem_reverse]

/-- Where all entries have the same value it does not matter which one counts. -/
theorem get?_ofList_of_forall [Decidable (key ∈ entries.map Prod.fst)]
    (h : ∀ e ∈ entries, e.2 = value) :
    (ofList entries).get? key = if key ∈ entries.map Prod.fst then some value else none := by
  rw [get?_ofList]
  cases hlookup : entries.reverse.lookup key with
  | none =>
    rw [List.lookup_eq_none_iff] at hlookup
    rw [if_neg]
    intro hmem
    obtain ⟨e, he, rfl⟩ := List.mem_map.1 hmem
    simpa using hlookup e (List.mem_reverse.2 he)
  | some v =>
    obtain ⟨before, after, hsplit, -⟩ := List.lookup_eq_some_iff.1 hlookup
    have hmem : (key, v) ∈ entries := by
      rw [← List.mem_reverse, hsplit]
      simp
    rw [if_pos (List.mem_map.2 ⟨_, hmem, rfl⟩), ← h _ hmem]

end SqlStubs.Table
