import SqlStubs.Text

/-!
# Cuts

What a scanner makes of a text: the part it took from the front and the part it left.  Every scanner
of this folder comes with the lemma that the two parts make up the text it was given.
-/

namespace SqlStubs.Lexer

/-- A text in two parts. -/
structure Cut where
  /-- The part taken. -/
  taken : Text
  /-- The part left. -/
  rest : Text
deriving Repr, DecidableEq

namespace Cut

/-- The text that was cut. -/
def whole (c : Cut) : Text := c.taken ++ c.rest

/-- The cut with a text put in front of the part taken. -/
def prepend (s : Text) (c : Cut) : Cut := ⟨s ++ c.taken, c.rest⟩

@[simp] theorem whole_mk (s t : Text) : (Cut.mk s t).whole = s ++ t := rfl

/-- What is put in front of the part taken is in front of the whole. -/
@[simp] theorem whole_prepend (s : Text) (c : Cut) : (c.prepend s).whole = s ++ c.whole := by
  simp [prepend, whole]

@[simp] theorem rest_prepend (s : Text) (c : Cut) : (c.prepend s).rest = c.rest := rfl

@[simp] theorem taken_prepend (s : Text) (c : Cut) : (c.prepend s).taken = s ++ c.taken := rfl

/-- The longest part whose bytes are all in class `p`. -/
def span (p : UInt8 → Bool) (s : Text) : Cut := ⟨s.takeWhile p, s.dropWhile p⟩

/-- The longest part in a class and what follows it are the text. -/
@[simp] theorem whole_span (p : UInt8 → Bool) (s : Text) : (span p s).whole = s :=
  List.takeWhile_append_dropWhile

theorem length_whole (c : Cut) : c.whole.length = c.taken.length + c.rest.length := by
  simp [whole]

/-- What is left is shorter than the whole as soon as something was taken. -/
theorem rest_length_lt {c : Cut} {s : Text} (h : c.whole = s) (taken : c.taken ≠ []) :
    c.rest.length < s.length := by
  have := List.length_pos_iff.2 taken
  rw [← h, length_whole]
  omega

end Cut

end SqlStubs.Lexer
