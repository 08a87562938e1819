import Mathlib.Data.List.DropRight
import SqlStubs.Files

/-!
# The names of a path

Where a path leads is decided by its names one after the other.  The facts here say what these names
are: `names_append` for a path that is put together at a slash, `steps_clean` for one that is
cleaned up, whose names are those that cleaning keeps (`kept`), and `base_cases` for the last one.
-/

namespace SqlStubs

namespace Path

variable {path name : Text} {names' : List Text}

/-- What can stand between two slashes. -/
structure IsName (name : Text) : Prop where
  ne_nil : name ≠ []
  slash : 0x2F ∉ name

/-- A name that says to look for something in a directory. -/
structure IsProper (name : Text) : Prop extends IsName name where
  ne_dot : name ≠ dot
  ne_dotDot : name ≠ dotDot

/-! ### Pieces between slashes -/

theorem splitOn_ne_nil (b : UInt8) (s : Text) : Text.splitOn b s ≠ [] := by
  cases s with
  | nil => simp [Text.splitOn]
  | cons c s =>
    rw [Text.splitOn]
    split
    · simp
    · split <;> simp

/-- A path that is put together at a slash has the pieces of both parts. -/
theorem splitOn_append (b : UInt8) (s t : Text) :
    Text.splitOn b (s ++ b :: t) = Text.splitOn b s ++ Text.splitOn b t := by
  induction s with
  | nil => simp [Text.splitOn]
  | cons c s ih =>
    rw [List.cons_append, Text.splitOn, Text.splitOn, ih]
    split
    · rfl
    · obtain ⟨piece, pieces, hpieces⟩ := List.exists_cons_of_ne_nil (splitOn_ne_nil b s)
      rw [hpieces]
      rfl

theorem splitOn_of_not_mem {b : UInt8} {s : Text} (h : b ∉ s) : Text.splitOn b s = [s] := by
  induction s with
  | nil => rfl
  | cons c s ih =>
    rw [List.mem_cons, not_or] at h
    rw [Text.splitOn, if_neg (Ne.symm h.1), ih h.2]

theorem not_mem_of_mem_splitOn (b : UInt8) (s : Text) : ∀ piece ∈ Text.splitOn b s, b ∉ piece := by
  induction s with
  | nil => simp [Text.splitOn]
  | cons c s ih =>
    obtain ⟨first, pieces, hpieces⟩ := List.exists_cons_of_ne_nil (splitOn_ne_nil b s)
    rw [hpieces, List.forall_mem_cons] at ih
    rw [Text.splitOn, hpieces]
    split
    · simpa using ih
    · rename_i hc
      simpa [Ne.symm hc] using ih

/-! ### Names -/

/-- A path that is put together at a slash has the names of both parts. -/
theorem names_append (s t : Text) : names (s ++ 0x2F :: t) = names s ++ names t := by
  rw [names, splitOn_append, List.filter_append]
  rfl

theorem names_cons (t : Text) : names (0x2F :: t) = names t := names_append [] t

theorem names_of_isName (h : IsName name) : names name = [name] := by
  have hne : name.isEmpty = false := List.isEmpty_eq_false_iff.2 h.ne_nil
  rw [names, splitOn_of_not_mem h.slash, List.filter_cons, hne]
  rfl

/-- What is between two slashes has no slash, and is a name if it is not empty. -/
theorem isName_of_mem_names (path : Text) : ∀ name ∈ names path, IsName name := by
  intro name h
  obtain ⟨hmem, hne⟩ := List.mem_filter.1 h
  refine ⟨?_, not_mem_of_mem_splitOn 0x2F path name hmem⟩
  simpa using hne

/-- Slashes at the end add no names. -/
theorem names_append_slashes (path : Text) {slashes : Text} (h : ∀ b ∈ slashes, b = 0x2F) :
    names (path ++ slashes) = names path := by
  induction slashes generalizing path with
  | nil => rw [List.append_nil]
  | cons b slashes ih =>
    rw [List.forall_mem_cons] at h
    rw [h.1, names_append, ← List.nil_append slashes, ih [] h.2]
    exact List.append_nil _

/-- What comes after a path without trailing slashes are these slashes. -/
theorem exists_withoutTrailing (path : Text) :
    ∃ slashes, path = withoutTrailing path ++ slashes ∧ ∀ b ∈ slashes, b = 0x2F := by
  refine ⟨path.rtakeWhile (· = 0x2F), (List.rdropWhile_append_rtakeWhile ..).symm, ?_⟩
  intro b hb
  simpa using List.mem_rtakeWhile_imp hb

theorem upToLast_isPrefix (path : Text) : upToLast path <+: path := by
  have hshort : withoutTrailing path <+: path := List.rdropWhile_prefix _ _
  have hfront : upToLast path <+: withoutTrailing path := List.rdropWhile_prefix _ _
  exact hfront.trans hshort

/-! ### Names with slashes between them -/

theorem join_cons_cons (separator first second : Text) (pieces : List Text) :
    Text.join separator (first :: second :: pieces) =
      first ++ separator ++ Text.join separator (second :: pieces) := rfl

/-- Names with slashes between them are the path that has these names. -/
theorem names_join (h : ∀ name ∈ names', IsName name) :
    names (Text.join [0x2F] names') = names' := by
  induction names' with
  | nil => rfl
  | cons first others ih =>
    rw [List.forall_mem_cons] at h
    cases others with
    | nil => exact names_of_isName h.1
    | cons second others =>
      rw [join_cons_cons, List.append_assoc, List.singleton_append, names_append,
        names_of_isName h.1, ih h.2, List.singleton_append]

theorem join_ne_nil (h : ∀ name ∈ names', IsName name) (hne : names' ≠ []) :
    Text.join [0x2F] names' ≠ [] := by
  intro hnil
  have hnames := names_join h
  rw [hnil] at hnames
  exact hne hnames.symm

theorem getLast?_append_of_ne_nil (s : Text) {t : Text} (h : t ≠ []) :
    (s ++ t).getLast? = t.getLast? := by
  rw [List.getLast?_append, List.getLast?_eq_some_getLast h, Option.some_or]

/-- Names do not begin or end with a slash, and so do names with slashes between them. -/
theorem join_ends (h : ∀ name ∈ names', IsName name) :
    (Text.join [0x2F] names').head? ≠ some 0x2F ∧
      (Text.join [0x2F] names').getLast? ≠ some 0x2F := by
  induction names' with
  | nil => simp [Text.join]
  | cons first others ih =>
    rw [List.forall_mem_cons] at h
    have hfirst : first.head? ≠ some 0x2F := fun hb => h.1.slash (List.mem_of_head? hb)
    cases others with
    | nil => exact ⟨hfirst, fun hb => h.1.slash (List.mem_of_getLast? hb)⟩
    | cons second others =>
      have hrest : Text.join [0x2F] (second :: others) ≠ [] := join_ne_nil h.2 (by simp)
      rw [join_cons_cons]
      constructor
      · -- the first byte is that of the first name
        have hhead := List.head?_eq_some_head h.1.ne_nil
        rw [List.append_assoc, List.head?_append, hhead, Option.some_or, ← hhead]
        exact hfirst
      · -- the last byte is that of the other names
        rw [getLast?_append_of_ne_nil _ hrest]
        exact (ih h.2).2

/-! ### Cleaning -/

/-- The names that are left of a path when it is cleaned up. -/
def kept (path : Text) : List Text := (names path).foldl (push (isAbsolute path)) []

/-- A name is kept only if it was there before or comes now, and a dot is never kept. -/
theorem mem_push {absolute : Bool} {front : List Text} {name other : Text}
    (h : other ∈ push absolute front name) : other ∈ front ∨ other = name ∧ name ≠ dot := by
  unfold push at h
  -- the cases are a dot, two dots with nothing, two dots or a name before them, and any other name
  split at h
  · exact .inl h
  · rename_i hdot
    split at h
    · rename_i hdotDot
      split at h
      · split at h
        · cases h
        · exact .inr ⟨(List.mem_singleton.1 h).trans hdotDot.symm, hdot⟩
      · split at h
        · rcases List.mem_append.1 h with h | h
          · exact .inl h
          · exact .inr ⟨(List.mem_singleton.1 h).trans hdotDot.symm, hdot⟩
        · exact .inl (List.dropLast_subset _ h)
    · rcases List.mem_append.1 h with h | h
      · exact .inl h
      · exact .inr ⟨List.mem_singleton.1 h, hdot⟩

/-- What is left of some names is among them, and is no dot. -/
theorem mem_foldl_push {absolute : Bool} {front : List Text}
    (h : name ∈ names'.foldl (push absolute) front) :
    name ∈ front ∨ name ∈ names' ∧ name ≠ dot := by
  induction names' generalizing front with
  | nil => exact .inl h
  | cons first others ih =>
    rcases ih h with h | ⟨h, hdot⟩
    · rcases mem_push h with h | ⟨rfl, hdot⟩
      · exact .inl h
      · exact .inr ⟨List.mem_cons_self, hdot⟩
    · exact .inr ⟨List.mem_cons_of_mem first h, hdot⟩

theorem isName_of_mem_kept (path : Text) : ∀ name ∈ kept path, IsName name := by
  intro name h
  rcases mem_foldl_push h with h | ⟨h, -⟩
  · cases h
  · exact isName_of_mem_names path name h

theorem clean_eq (path : Text) :
    clean path =
      if isAbsolute path then 0x2F :: Text.join [0x2F] (kept path)
      else if (Text.join [0x2F] (kept path)).isEmpty then dot
      else Text.join [0x2F] (kept path) := rfl

/-- Cleaning keeps whether a path begins at the root. -/
theorem isAbsolute_clean (path : Text) : isAbsolute (clean path) = isAbsolute path := by
  have hhead := (join_ends (isName_of_mem_kept path)).1
  rw [clean_eq]
  split
  · rename_i habsolute
    rw [habsolute]
    rfl
  · rename_i hrelative
    rw [Bool.eq_false_iff.2 hrelative]
    split
    · rfl
    · exact decide_eq_false hhead

/-- The steps along a path that is cleaned up. -/
theorem steps_clean (path : Text) :
    Files.steps (clean path) = if kept path = [] then [dot] else kept path := by
  have hlast := (join_ends (isName_of_mem_kept path)).2
  have hnames := names_join (isName_of_mem_kept path)
  by_cases hnil : kept path = []
  · -- nothing is kept, so the path is the root or the directory itself
    have hclean : clean path = [0x2F] ∨ clean path = dot := by
      rw [clean_eq, hnil]
      split
      · exact .inl rfl
      · exact .inr rfl
    rw [if_pos hnil]
    rcases hclean with h | h <;> rw [h] <;> rfl
  · have hne : Text.join [0x2F] (kept path) ≠ [] := join_ne_nil (isName_of_mem_kept path) hnil
    -- no slash at the end is left, which would add a step
    rw [if_neg hnil, Files.steps, clean_eq]
    split
    · rw [names_cons, hnames, ← List.singleton_append, getLast?_append_of_ne_nil _ hne,
        if_neg hlast, List.append_nil]
    · rw [if_neg (by simpa using hne), hnames, if_neg hlast, List.append_nil]

/-! ### The last name -/

/-- The base name of a path is its last name, unless it is no name to look for. -/
theorem base_cases (path : Text) :
    (IsProper (base path) ∧ ∃ front, names path = front ++ [base path]) ∨
      base path = dot ∨ base path = dotDot ∨ base path = [0x2F] := by
  unfold base
  split
  · exact .inr (.inl rfl)
  · rcases List.eq_nil_or_concat (names path) with hnil | ⟨front, last, hnames⟩
    · rw [hnil]
      exact .inr (.inr (.inr rfl))
    · rw [List.concat_eq_append] at hnames
      have hlast : IsName last := isName_of_mem_names path last (by rw [hnames]; simp)
      rw [hnames, List.getLastD_concat]
      by_cases hdot : last = dot
      · exact .inr (.inl hdot)
      · by_cases hdotDot : last = dotDot
        · exact .inr (.inr (.inl hdotDot))
        · exact .inl ⟨⟨hlast, hdot, hdotDot⟩, front, rfl⟩

end Path

end SqlStubs
