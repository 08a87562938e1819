import SqlStubs.Yaml.Token

/-!
# Reading the characters of tokens

The state of a reader of tokens, and the steps that every token is read with: looking at characters,
taking them, and keeping count of the place.  A reader runs as a `Scan`, which ends early at the
first fault.  Its loops are `repeatUpTo`.
-/

namespace SqlStubs.Yaml

/-! ### Classes of characters -/

/-- A space or a tab. -/
def isBlank (c : Char) : Bool := c = ' ' || c = '\t'

/-- A line break; of a carriage return and a line feed the first one is meant. -/
def isBreak (c : Char) : Bool :=
  c = '\r' || c = '\n' || c = '\u0085' || c = '\u2028' || c = '\u2029'

/-- The end of the document. -/
def isEnd (c : Char) : Bool := c = '\x00'

/-- A line break or the end. -/
def isBreakOrEnd (c : Char) : Bool := isBreak c || isEnd c

/-- What ends a word: a blank, a line break or the end. -/
def isGap (c : Char) : Bool := isBlank c || isBreakOrEnd c

/-- A character of a name: a letter or digit of ASCII, `_` or `-`. -/
def isNameCharacter (c : Char) : Bool := c.isAlphanum || c = '_' || c = '-'

/-- The value of a hexadecimal digit. -/
def hexDigit? (c : Char) : Option Nat :=
  if c.isDigit then some (c.toNat - 0x30)
  else if 'a' ≤ c && c ≤ 'f' then some (c.toNat - 0x57)
  else if 'A' ≤ c && c ≤ 'F' then some (c.toNat - 0x37)
  else none

/-- The text of some characters. -/
def textOf (cs : Array Char) : Text := cs.toList.flatMap fun c => Text.Utf8.encode c.toNat

/-! ### The state -/

/-- Something that a colon may turn into a key. -/
structure KeyCandidate where
  possible : Bool := false
  /-- Whether it is the only thing that can stand where it stands. -/
  required : Bool := false
  /-- The number of its first token. -/
  number : Nat := 0
  mark : Mark := {}
deriving Repr, DecidableEq

/-- The state of a reader of tokens. -/
structure TokenReader where
  source : Characters
  mark : Mark := {}
  /-- How many line breaks were read after the last character that is not blank. -/
  breaks : Nat := 0
  /-- One more than the column of the innermost block collection; zero without one. -/
  margin : Nat := 0
  /-- The margins around it. -/
  margins : List Nat := []
  /-- The candidates of the flow collections around the place, the innermost first, and last the one
  outside of all. -/
  candidates : List KeyCandidate := []
  /-- The number of flow collections around the place. -/
  flowDepth : Nat := 0
  /-- Whether a key may begin at the place. -/
  keyAllowed : Bool := true
  /-- The numbers of tokens that may begin a key, each with the flow depth of its candidate; the
  latest comes first. -/
  awaited : List (Nat × Nat) := []
  /-- The tokens that are read and not taken yet. -/
  queue : List Token := []
  /-- The number of tokens taken. -/
  taken : Nat := 0
  started : Bool := false
  /-- More than the number of characters. -/
  limit : Nat
deriving Repr, DecidableEq

/-- The reader of a document's tokens. -/
def TokenReader.ofText (s : Text) : TokenReader :=
  { source := .ofText s, limit := s.length + 16 }

/-- Repeats a step for as long as it asks for it, and at most so many times. -/
def repeatUpTo {m : Type → Type} [Monad m] {α : Type} (step : α → m (α × Bool)) :
    (times : Nat) → α → m α
  | 0, a => pure a
  | times + 1, a => do
    let (a, again) ← step a
    if again then repeatUpTo step times a else pure a

/-- A step of reading tokens. -/
abbrev Scan := StateT TokenReader (Except Fault)

namespace Scan

/-- Repeats a step for as long as it asks for it.  Every time but the last it reads a character, so
that the number of characters is a limit. -/
def loop {α : Type} (step : α → Scan (α × Bool)) (a : α) : Scan α := do
  repeatUpTo step (← get).limit a

/-- Ends with a problem of a token that begins at `start`. -/
def fail {α : Type} (problem : TokenProblem) (start : Mark) : Scan α := do
  throw (.token problem start (← get).mark)

/-! ### Characters -/

/-- Sees to it that so many characters are unread, as far as there are so many. -/
def need (n : Nat) : Scan Unit := do
  let r ← get
  match r.source.need n with
  | .error fault => throw (.encoding fault)
  | .ok source => set { r with source }

/-- The unread character after `k` others. -/
def ahead (k : Nat) : Scan Char := return (← get).source.ahead k

/-- The next character. -/
def next : Scan Char := ahead 0

/-- Takes the next character, which is no line break. -/
def take : Scan Char := do
  let r ← get
  let c := r.source.ahead 0
  set { r with
    source.unread := r.source.unread.drop 1
    mark.index := r.mark.index + 1
    mark.column := r.mark.column + 1
    breaks := if isBlank c then r.breaks else 0 }
  return c

/-- Leaves out the next character, which is no line break. -/
def skip : Scan Unit := do
  let _ ← take

/-- Leaves out so many characters. -/
def skipMany : Nat → Scan Unit
  | 0 => pure ()
  | n + 1 => do
    skip
    skipMany n

/-- Takes a line break and gives what it means: a line feed, or itself if it separates lines or
paragraphs.  At the end of the document there is none. -/
def takeBreak : Scan (Array Char) := do
  let r ← get
  let c := r.source.ahead 0
  if isBreak c then
    let width := if c = '\r' && r.source.ahead 1 = '\n' then 2 else 1
    set { r with
      source.unread := r.source.unread.drop width
      mark := { index := r.mark.index + width, line := r.mark.line + 1, column := 0 }
      breaks := r.breaks + 1 }
    return #[if c = '\u2028' || c = '\u2029' then c else '\n']
  else return #[]

/-- Leaves out a line break. -/
def skipBreak : Scan Unit := do
  let _ ← takeBreak

/-- Leaves out characters of a class. -/
def skipWhile (p : Char → Bool) : Scan Unit := do
  need 1
  loop (fun _ => do
    if p (← next) then
      skip
      need 1
      return ((), true)
    else return ((), false)) ()

/-- Takes characters of a class. -/
def takeWhile (p : Char → Bool) : Scan (Array Char) := do
  need 1
  loop (fun cs => do
    if p (← next) then
      let cs := cs.push (← take)
      need 1
      return (cs, true)
    else return (cs, false)) #[]

/-- Leaves out the rest of a line, without its break. -/
def skipLine : Scan Unit := skipWhile fun c => !isBreakOrEnd c

/-- Whether the place is the beginning of a line with a mark between documents: three hyphens or
points, and a gap.  Four characters must have been asked for. -/
def atDocumentMark : Scan Bool := do
  let r ← get
  let c := r.source.ahead 0
  return r.mark.column = 0 && (c = '-' || c = '.') && r.source.ahead 1 = c && r.source.ahead 2 = c
    && isGap (r.source.ahead 3)

/-! ### Comments -/

/-- How many characters ahead a comment is looked for. -/
def commentReach : Nat := 512

/-- The number of characters before the next comment, if only characters of a class come before it
and not too many. -/
def commentAhead (between : Char → Bool) : (steps k : Nat) → Scan (Option Nat)
  | 0, _ => return none
  | steps + 1, k => do
    need (k + 1)
    let c ← ahead k
    if c = '#' then return some k
    else if between c then commentAhead between steps (k + 1)
    else return none

/-- Leaves out a comment after a token on the same line. -/
def skipTrailingComment : Scan Unit := do
  if (← get).breaks = 0 then
    match ← commentAhead isBlank commentReach 0 with
    | none => pure ()
    | some _ => skipLine

/-- Leaves out blanks and line breaks up to the comment that is known to come. -/
def skipToComment : Scan Unit :=
  loop (fun _ => do
    need 1
    let c ← next
    if c = '#' then return ((), false)
    else if isBreak c then
      need 2
      skipBreak
      return ((), true)
    else
      skip
      return ((), true)) ()

/-- Leaves out a comment, and comments that follow it after nothing but blanks and ordinary line
breaks.  The break after the last one is left. -/
def skipComments : Scan Unit := do
  skipLine
  loop (fun _ => do
    let c ← next
    if c = '\r' || c = '\n' then
      let between c := isBlank c || c = '\r' || c = '\n'
      match ← commentAhead between (commentReach - 1) 1 with
      | none => return ((), false)
      | some _ =>
        skipToComment
        skipLine
        return ((), true)
    else return ((), false)) ()

end Scan

end SqlStubs.Yaml
