import SqlStubs.Lexer.Comment

/-!
# Gaps

What lies between two tokens.  Between statements it is blanks only, since comments and line breaks
are tokens there.  Inside a statement line breaks and complete comments belong to it too, except
that `/*+` is not a comment but opens an escape, unless one is open already.
-/

namespace SqlStubs.Lexer

/-- What the reader is in the middle of. -/
inductive Mode where
  /-- Between two statements. -/
  | between
  /-- Inside a statement. -/
  | inside
  /-- Inside a statement, after `/*+` and before its `*/`. -/
  | escape
deriving Repr, DecidableEq

/-- A blank that means nothing anywhere: space, tab, carriage return or form feed. -/
def isBlank (b : UInt8) : Bool := b = 0x20 || b = 0x09 || b = 0x0D || b = 0x0C

/-- A blank inside a statement, where a line break is one as well. -/
def isSpace (b : UInt8) : Bool := isBlank b || b = 0x0A

/-- Whether a text begins with the escape opener `/*+`. -/
def startsEscape : Text → Bool
  | 0x2F :: 0x2A :: 0x2B :: _ => true
  | _ => false

/-- The comment that is skipped at the front of a text inside a statement. -/
def skippedComment? (inEscape : Bool) (s : Text) : Option Cut :=
  (lineComment? s).or (if startsEscape s && !inEscape then none else blockComment? s)

theorem whole_skippedComment? {inEscape : Bool} {s : Text} {c : Cut}
    (h : skippedComment? inEscape s = some c) : c.whole = s := by
  rcases Option.or_eq_some_iff.1 h with h | ⟨-, h⟩
  · exact whole_lineComment? h
  · split at h
    · cases h
    · exact whole_blockComment? h

/-- A comment that is skipped is not empty, which is why skipping them one by one ends. -/
theorem taken_skippedComment? {inEscape : Bool} {s : Text} {c : Cut}
    (h : skippedComment? inEscape s = some c) : c.taken ≠ [] := by
  rcases Option.or_eq_some_iff.1 h with h | ⟨-, h⟩
  · exact taken_lineComment? h
  · split at h
    · cases h
    · exact taken_blockComment? h

/-- The blanks and comments at the front of a text inside a statement.  It ends at a comment that
has no end of its own. -/
def spacing (inEscape : Bool) (s : Text) : Cut :=
  let blank := Cut.span isSpace s
  match _h : skippedComment? inEscape blank.rest with
  | none => blank
  | some c => (spacing inEscape c.rest).prepend (blank.taken ++ c.taken)
termination_by s.length
decreasing_by
  -- the comment is not empty, and what is left after it is part of what the blanks have left
  have shorter := Cut.rest_length_lt (whole_skippedComment? _h) (taken_skippedComment? _h)
  have whole := congrArg List.length (Cut.whole_span isSpace s)
  rw [Cut.length_whole] at whole
  change c.rest.length < (Cut.span isSpace s).rest.length at shorter
  omega

/-- Blanks and comments in turn, and what is left after the last of them, are the text. -/
theorem whole_spacing (inEscape : Bool) (s : Text) : (spacing inEscape s).whole = s := by
  fun_induction spacing inEscape s with
  | case1 s blank _ => exact Cut.whole_span isSpace s
  | case2 s blank c h ih =>
    -- the comment and what it leaves are what the blanks have left
    have comment := whole_skippedComment? h
    rw [Cut.whole] at comment
    rw [Cut.whole_prepend, ih, List.append_assoc, comment]
    exact Cut.whole_span isSpace s

/-- What is skipped before the next token. -/
def skip : Mode → Text → Cut
  | .between => Cut.span isBlank
  | .inside => spacing false
  | .escape => spacing true

theorem whole_skip (mode : Mode) (s : Text) : (skip mode s).whole = s := by
  cases mode
  · exact Cut.whole_span isBlank s
  · exact whole_spacing false s
  · exact whole_spacing true s

end SqlStubs.Lexer
