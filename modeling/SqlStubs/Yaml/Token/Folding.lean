import SqlStubs.Yaml.Token.Reader

/-!
# Scalars over several lines

Plain and quoted scalars may go over several lines.  A single line break between their words is read
as a space, of several the first one is dropped, and blanks around line breaks do not count
(`Folding.join`).
-/

namespace SqlStubs.Yaml

/-- A scalar that is being read, and what was read after its last word. -/
structure Folding where
  text : Array Char := #[]
  /-- Blanks before any line break. -/
  blanks : Array Char := #[]
  firstBreak : Array Char := #[]
  laterBreaks : Array Char := #[]
  /-- Whether a line ended after the last word. -/
  afterBreak : Bool := false
deriving Repr, DecidableEq

namespace Folding

/-- The text with the gap after its last word made part of it. -/
def join (f : Folding) : Folding :=
  let gap :=
    if !f.afterBreak then f.blanks
    else if f.firstBreak = #['\n'] then
      if f.laterBreaks.isEmpty then #[' '] else f.laterBreaks
    else f.firstBreak ++ f.laterBreaks
  { text := f.text ++ gap }

/-- The text with one more character. -/
def push (f : Folding) (c : Char) : Folding := { f with text := f.text.push c }

end Folding

namespace Scan

/-- Reads blanks and line breaks after a word.  On every later line `onIndent` sees the blanks. -/
def foldGap (onIndent : Scan Unit) (f : Folding) : Scan Folding := do
  need 1
  loop (fun f => do
    let c ← next
    if isBlank c then
      let f ←
        if f.afterBreak then do
          onIndent
          skip
          pure f
        else pure { f with blanks := f.blanks.push (← take) }
      need 1
      return (f, true)
    else if isBreak c then
      need 2
      let f ←
        if f.afterBreak then pure { f with laterBreaks := f.laterBreaks ++ (← takeBreak) }
        else pure { f with blanks := #[], firstBreak := ← takeBreak, afterBreak := true }
      need 1
      return (f, true)
    else return (f, false)) f

end Scan

end SqlStubs.Yaml
