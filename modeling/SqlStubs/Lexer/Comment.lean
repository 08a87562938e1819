import SqlStubs.Lexer.Cut

/-!
# Comments

A line comment runs from `--` up to the line break, which is not part of it.  A block comment runs
from `/*` through the matching `*/` and may hold further block comments.
-/

namespace SqlStubs.Lexer

/-- The text through the `*/` that closes `depth` open block comments. -/
def closeBlocks? : (depth : Nat) → Text → Option Cut
  | 0, s => some ⟨[], s⟩
  | _ + 1, [] => none
  | depth + 1, 0x2A :: 0x2F :: s => (closeBlocks? depth s).map (·.prepend [0x2A, 0x2F])
  | depth + 1, 0x2F :: 0x2A :: s => (closeBlocks? (depth + 2) s).map (·.prepend [0x2F, 0x2A])
  | depth + 1, b :: s => (closeBlocks? (depth + 1) s).map (·.prepend [b])

/-- The block comment at the front of a text that begins with `/*`, if it has an end. -/
def blockComment? : Text → Option Cut
  | 0x2F :: 0x2A :: s => (closeBlocks? 1 s).map (·.prepend [0x2F, 0x2A])
  | _ => none

/-- The text up to the end of the line. -/
def restOfLine (s : Text) : Cut := Cut.span (· ≠ 0x0A) s

/-- The line comment at the front of a text that begins with `--`. -/
def lineComment? : Text → Option Cut
  | 0x2D :: 0x2D :: s => some ((restOfLine s).prepend [0x2D, 0x2D])
  | _ => none

/-! ### Nothing is lost -/

/-- At any depth, what is read and what is left are the text. -/
theorem whole_closeBlocks? {depth : Nat} {s : Text} {c : Cut} (h : closeBlocks? depth s = some c) :
    c.whole = s := by
  fun_induction closeBlocks? depth s generalizing c with
  | case1 s => cases h; rfl
  | case2 => cases h
  -- a mark or a byte that is none goes over to the part taken, whatever it does to the depth
  | case3 depth s ih | case4 depth s ih | case5 depth b s _ _ ih =>
    obtain ⟨d, hd, rfl⟩ := Option.map_eq_some_iff.1 h
    simp [ih hd]

theorem whole_blockComment? {s : Text} {c : Cut} (h : blockComment? s = some c) : c.whole = s := by
  unfold blockComment? at h
  split at h
  · obtain ⟨d, hd, rfl⟩ := Option.map_eq_some_iff.1 h
    simp [whole_closeBlocks? hd]
  · cases h

/-- A block comment is never empty: it has at least its opener. -/
theorem taken_blockComment? {s : Text} {c : Cut} (h : blockComment? s = some c) :
    c.taken ≠ [] := by
  unfold blockComment? at h
  split at h
  · obtain ⟨d, -, rfl⟩ := Option.map_eq_some_iff.1 h
    simp
  · cases h

theorem whole_lineComment? {s : Text} {c : Cut} (h : lineComment? s = some c) : c.whole = s := by
  unfold lineComment? at h
  split at h
  · cases h; simp [restOfLine]
  · cases h

theorem taken_lineComment? {s : Text} {c : Cut} (h : lineComment? s = some c) : c.taken ≠ [] := by
  unfold lineComment? at h
  split at h
  · cases h; simp
  · cases h

end SqlStubs.Lexer
