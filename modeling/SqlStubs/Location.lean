import SqlStubs.Text

/-!
# Places in a source

A location is a line and a column, both counted from one, and a byte offset counted from zero.  It
is a function of the bytes before it: `Location.after` moves over them one at a time, and
`Location.after_append` says that it does not matter how they are cut.
-/

namespace SqlStubs

/-- A place in a source. -/
structure Location where
  /-- The line, from one. -/
  line : Nat := 1
  /-- The column in bytes, from one. -/
  column : Nat := 1
  /-- The number of bytes before the place. -/
  offset : Nat := 0
deriving Repr, DecidableEq, Inhabited

namespace Location

/-- The place after one more byte. -/
def step (l : Location) (b : UInt8) : Location :=
  if b = 0x0A then ⟨l.line + 1, 1, l.offset + 1⟩ else ⟨l.line, l.column + 1, l.offset + 1⟩

/-- The place after the bytes of `s`. -/
def after (l : Location) (s : Text) : Location := s.foldl step l

@[simp] theorem after_nil (l : Location) : l.after [] = l := rfl

@[simp] theorem after_cons (l : Location) (b : UInt8) (s : Text) :
    l.after (b :: s) = (l.step b).after s := rfl

/-- It does not matter where the bytes before a place are cut. -/
theorem after_append (l : Location) (s t : Text) : l.after (s ++ t) = (l.after s).after t := by
  simp [after]

/-- The offset counts bytes. -/
theorem after_offset (l : Location) (s : Text) : (l.after s).offset = l.offset + s.length := by
  induction s generalizing l with
  | nil => rfl
  | cons b s ih =>
    rw [after_cons, ih, List.length_cons]
    unfold step
    split <;> simp only <;> omega

/-- The line counts line breaks. -/
theorem after_line (l : Location) (s : Text) :
    (l.after s).line = l.line + Text.newlines s := by
  induction s generalizing l with
  | nil => rfl
  | cons b s ih =>
    rw [after_cons, ih]
    unfold step Text.newlines
    -- a line break is the only byte that moves the line
    by_cases h : b = 0x0A
    · subst h; simp; omega
    · simp [h]

end Location

/-- A place as diagnostics show it: `file:line.column`, or `line.column` without a file name. -/
def positionText (filename : Text) (line column : Int) : Text :=
  let place := Text.decimalInt line ++ [0x2E] ++ Text.decimalInt column
  if filename.isEmpty then place else filename ++ [0x3A] ++ place

/-- A location as diagnostics show it. -/
def Location.text (filename : Text) (l : Location) : Text := positionText filename l.line l.column

end SqlStubs
