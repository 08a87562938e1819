import SqlStubs.Lexer.Cut

/-!
# Numbers

A number is digits with an optional fraction and an optional exponent.  The point may stand first if
a digit follows, and last if no second point follows; an exponent needs at least one digit.
-/

namespace SqlStubs.Lexer

/-- Whether a text begins with a digit. -/
def startsWithDigit (s : Text) : Bool := s.head?.any Text.isDigit

/-- Whether a number begins here: at a digit, or at a point before a digit. -/
def startsNumber : Text → Bool
  | 0x2E :: s => startsWithDigit s
  | s => startsWithDigit s

/-- The fraction at the front of a text: a point and the digits after it.  After digits the point
alone is enough, unless another point follows. -/
def fraction (afterDigits : Bool) : Text → Cut
  | 0x2E :: s =>
    if startsWithDigit s || (afterDigits && s.head? ≠ some 0x2E) then
      (Cut.span Text.isDigit s).prepend [0x2E]
    else ⟨[], 0x2E :: s⟩
  | s => ⟨[], s⟩

/-- A sign at the front of a text, if there is one. -/
def sign : Text → Cut
  | 0x2B :: s => ⟨[0x2B], s⟩
  | 0x2D :: s => ⟨[0x2D], s⟩
  | s => ⟨[], s⟩

/-- The exponent at the front of a text: `e` or `E`, a sign if there is one, and digits. -/
def exponent : Text → Cut
  | [] => ⟨[], []⟩
  | b :: s =>
    if (b = 0x65 || b = 0x45) && startsWithDigit (sign s).rest then
      (Cut.span Text.isDigit (sign s).rest).prepend (b :: (sign s).taken)
    else ⟨[], b :: s⟩

/-- The number at the front of a text. -/
def number (s : Text) : Cut :=
  let whole := Cut.span Text.isDigit s
  let fractional := fraction (!whole.taken.isEmpty) whole.rest
  let scaled := exponent fractional.rest
  ⟨whole.taken ++ fractional.taken ++ scaled.taken, scaled.rest⟩

/-! ### Nothing is lost -/

theorem whole_fraction (afterDigits : Bool) (s : Text) : (fraction afterDigits s).whole = s := by
  unfold fraction
  split
  · split
    · simp
    · rfl
  · rfl

theorem whole_sign (s : Text) : (sign s).whole = s := by
  unfold sign
  split <;> rfl

/-- An exponent without a digit is not taken at all, so nothing is lost either way. -/
theorem whole_exponent (s : Text) : (exponent s).whole = s := by
  unfold exponent
  split
  · rfl
  · rename_i b t
    split
    · have := whole_sign t
      rw [Cut.whole] at this
      simp [this]
    · rfl

/-- The three parts of a number are cut one after the other. -/
theorem whole_number (s : Text) : (number s).whole = s := by
  have h₁ := Cut.whole_span Text.isDigit s
  have h₂ := whole_fraction (!(Cut.span Text.isDigit s).taken.isEmpty)
    (Cut.span Text.isDigit s).rest
  have h₃ := whole_exponent
    (fraction (!(Cut.span Text.isDigit s).taken.isEmpty) (Cut.span Text.isDigit s).rest).rest
  -- each part is read from what the part before it has left
  simp only [Cut.whole] at h₁ h₂ h₃
  simp only [number, Cut.whole, List.append_assoc]
  rw [h₃, h₂, h₁]

/-- Where a number begins, at least one byte is read. -/
theorem taken_number {s : Text} (h : startsNumber s = true) : (number s).taken ≠ [] := by
  unfold number
  unfold startsNumber at h
  split at h
  · rename_i t
    simp [Cut.span, Text.isDigit, fraction, h]
  · cases s with
    | nil => cases h
    | cons b t =>
      have digit : Text.isDigit b = true := h
      simp [Cut.span, digit]

end SqlStubs.Lexer
