import SqlStubs.Yaml.Token.Reader

/-!
# Block scalars

A block scalar is the lines after its header that are indented far enough.  The header says whether
lines are kept or folded, how the line breaks at the end count, and may give the indentation.
-/

namespace SqlStubs.Yaml

/-- Which line breaks at the end of a block scalar count. -/
inductive Chomping where
  | strip | clip | keep
deriving Repr, DecidableEq

/-- What the header of a block scalar says; an indentation of zero is to be found out. -/
structure BlockHeader where
  chomping : Chomping := .clip
  indent : Nat := 0
deriving Repr, DecidableEq

/-- A block scalar that is being read. -/
structure BlockText where
  text : Array Char := #[]
  /-- The break after the last line. -/
  lineBreak : Array Char := #[]
  /-- The breaks of empty lines after it. -/
  emptyBreaks : Array Char := #[]
  /-- Whether the last line begins with a blank. -/
  blankStart : Bool := false
  /-- The column in which lines begin; zero if it is to be found out. -/
  indent : Nat
deriving Repr, DecidableEq

/-- The text before a line that begins with a blank or not.  Folding turns a single break between
two lines that do not into a space. -/
def BlockText.join (b : BlockText) (folded startsBlank : Bool) : Array Char :=
  let lineBreak :=
    if folded && !b.blankStart && !startsBlank && b.lineBreak = #['\n'] then
      if b.emptyBreaks.isEmpty then #[' '] else #[]
    else b.lineBreak
  b.text ++ lineBreak ++ b.emptyBreaks

/-- The text with what its chomping leaves of the breaks at the end. -/
def BlockText.finish (b : BlockText) : Chomping → Array Char
  | .strip => b.text
  | .clip => b.text ++ b.lineBreak
  | .keep => b.text ++ b.lineBreak ++ b.emptyBreaks

namespace Scan

/-- Reads a chomping sign. -/
def chomping : Scan (Option Chomping) := do
  need 1
  let c ← next
  if c = '+' then
    skip
    return some .keep
  else if c = '-' then
    skip
    return some .strip
  else return none

/-- Reads an indentation digit of a scalar that begins at `start`. -/
def indentDigit (start : Mark) : Scan Nat := do
  need 1
  let c ← next
  if c = '0' then fail .zeroIndent start
  else if c.isDigit then
    skip
    return c.toNat - 0x30
  else return 0

/-- Reads the header of a block scalar that begins at `start`: a chomping sign and an indentation
digit in either order. -/
def blockHeader (start : Mark) : Scan BlockHeader := do
  match ← chomping with
  | some chomping => return { chomping, indent := ← indentDigit start }
  | none =>
    let indent ← indentDigit start
    if indent = 0 then return {}
    else return { chomping := (← chomping).getD .clip, indent }

/-- Reads empty lines and the indentation of the line after them.  If the indentation is to be found
out, it is that of the line furthest in, and right of the margin. -/
def blockGap (start : Mark) (b : BlockText) : Scan BlockText := do
  let inside (r : TokenReader) : Bool := b.indent = 0 || r.mark.column < b.indent
  let (b, deepest) ← loop (fun (b, deepest) => do
    need 1
    loop (fun _ => do
      if inside (← get) && (← next) = ' ' then
        skip
        need 1
        return ((), true)
      else return ((), false)) ()
    let deepest := max deepest (← get).mark.column
    let c ← next
    if inside (← get) && c = '\t' then fail .tabAsIndent start
    if isBreak c then
      need 2
      return (({ b with emptyBreaks := b.emptyBreaks ++ (← takeBreak) }, deepest), true)
    else return ((b, deepest), false)) (b, 0)
  if b.indent = 0 then return { b with indent := max (max deepest (← get).margin) 1 }
  else return b

/-- Reads the lines of a block scalar. -/
def blockLines (folded : Bool) (start : Mark) (b : BlockText) : Scan BlockText :=
  loop (fun b => do
    let c ← next
    if (← get).mark.column = b.indent && !isEnd c then
      let startsBlank := isBlank c
      let text := b.join folded startsBlank ++ (← takeWhile fun c => !isBreakOrEnd c)
      need 2
      let lineBreak ← takeBreak
      let b ← blockGap start
        { text, lineBreak, blankStart := startsBlank, indent := b.indent }
      return (b, true)
    else return (b, false)) b

/-- Reads a block scalar. -/
def blockScalar : Scan TokenKind := do
  let start := (← get).mark
  let folded := (← take) = '>'
  let header ← blockHeader start
  skipWhile isBlank
  if (← next) = '#' then skipLine
  let c ← next
  if !isBreakOrEnd c then fail .headerEnd start
  if isBreak c then
    need 2
    skipBreak
  -- a given indentation counts from the column of the collection around
  let margin := (← get).margin
  let indent := if header.indent = 0 then 0 else margin - 1 + header.indent
  let b ← blockGap start { indent }
  need 1
  let b ← blockLines folded start b
  return .scalar (textOf (b.finish header.chomping)) .marked

end Scan

end SqlStubs.Yaml
