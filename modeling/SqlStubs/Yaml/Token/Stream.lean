import SqlStubs.Yaml.Token.Block
import SqlStubs.Yaml.Token.Directive
import SqlStubs.Yaml.Token.Plain
import SqlStubs.Yaml.Token.Quoted

/-!
# The stream of tokens

Tokens are read when they are asked for, and a few more ahead (`peek`).  What could be a key is
known to be one only when its colon is read, so as long as the next token could begin a key, reading
goes on, and the token that says so is put before it (`valueSign`).  A key is on one line, and its
colon is not too far from its beginning.
-/

namespace SqlStubs.Yaml.Scan

/-- How deep collections may be nested. -/
def depthLimit : Nat := 10000

/-- How far from its beginning the colon of a key may be. -/
def keyReach : Nat := 1024

/-! ### The queue -/

/-- Adds a token at the end. -/
def push (kind : TokenKind) (start : Mark) : Scan Unit :=
  modify fun r => { r with queue := r.queue ++ [⟨kind, start⟩] }

/-- Inserts a token before the one with a number.  If that is taken already, the new one goes to the
end. -/
def insertAt (number : Nat) (kind : TokenKind) (start : Mark) : Scan Unit :=
  modify fun r =>
    let token : Token := ⟨kind, start⟩
    if number < r.taken then { r with queue := r.queue ++ [token] }
    else
      let k := number - r.taken
      { r with queue := r.queue.take k ++ token :: r.queue.drop k }

/-! ### Candidates for keys -/

/-- The innermost candidate. -/
def candidate : Scan KeyCandidate := return (← get).candidates.headD {}

/-- Replaces the innermost candidate. -/
def setCandidate (c : KeyCandidate) : Scan Unit :=
  modify fun r => { r with candidates := c :: r.candidates.drop 1 }

/-- Entries by falling number without the one that has a given number. -/
def without (number : Nat) : List (Nat × Nat) → List (Nat × Nat)
  | [] => []
  | (n, depth) :: rest =>
    if n = number then rest
    else if n < number then (n, depth) :: rest
    else (n, depth) :: without number rest

/-- Forgets that a token may begin a key. -/
def unawait (number : Nat) : Scan Unit :=
  modify fun r => { r with awaited := without number r.awaited }

/-- Whether a candidate can still become a key at the place. -/
def isValid (c : KeyCandidate) : Scan Bool := do
  let r ← get
  if !c.possible then return false
  else if c.mark.line < r.mark.line || c.mark.index + keyReach < r.mark.index then
    if c.required then fail .missingColon c.mark
    return false
  else return true

/-- Drops the innermost candidate. -/
def dropCandidate : Scan Unit := do
  let c ← candidate
  if c.possible then
    if c.required then fail .missingColon c.mark
    setCandidate { c with possible := false }
    unawait c.number

/-- Makes what begins at the place a candidate, if a key may begin there. -/
def saveCandidate : Scan Unit := do
  let r ← get
  if r.keyAllowed then
    let number := r.taken + r.queue.length
    dropCandidate
    setCandidate
      { possible := true
        required := r.flowDepth = 0 && r.margin = r.mark.column + 1
        number
        mark := r.mark }
    modify fun r => { r with awaited := (number, r.flowDepth) :: r.awaited }

/-- Says whether a key may begin at the place. -/
def allowKey (allowed : Bool) : Scan Unit := modify fun r => { r with keyAllowed := allowed }

/-! ### Layout -/

/-- Opens a block collection at a column, unless the place is in a flow collection or the column is
not right of the margin.  `insert` puts its token into the queue. -/
def openBlock (column : Nat) (insert : Scan Unit) : Scan Unit := do
  let r ← get
  if r.flowDepth = 0 && r.margin ≤ column then
    set { r with margin := column + 1, margins := r.margin :: r.margins }
    if depthLimit ≤ r.margins.length then fail .tooDeep (← candidate).mark
    insert

/-- Closes the block collections from the innermost one, for as many margins as exceed `margin`. -/
def closeMargins (margin : Nat) (start : Mark) : List Nat → Scan Unit
  | [] => pure ()
  | outer :: margins => do
    if margin < (← get).margin then
      push .blockEnd start
      modify fun r => { r with margin := outer, margins }
      closeMargins margin start margins

/-- Closes the block collections that lie right of a margin, unless the place is in a flow
collection. -/
def closeBlocks (margin : Nat) (start : Mark) : Scan Unit := do
  let r ← get
  if r.flowDepth = 0 then closeMargins margin start r.margins

/-- Leaves out blanks, comments and line breaks up to the next token.  A byte order mark may begin a
line.  Tabs may not stand where a key may begin, outside of flow collections. -/
def skipGap : Scan Unit :=
  loop (fun _ => do
    need 1
    let r ← get
    if r.mark.column = 0 && r.source.first = '\ufeff' then skip
    let r ← get
    let tabs := 0 < r.flowDepth || !r.keyAllowed
    skipWhile fun c => c = ' ' || (tabs && c = '\t')
    if (← next) = '#' then skipComments
    if isBreak (← next) then
      need 2
      skipBreak
      if (← get).flowDepth = 0 then allowKey true
      return ((), true)
    else return ((), false)) ()

/-! ### Tokens -/

/-- Adds a token for a sign of so many characters. -/
def sign (kind : TokenKind) (width : Nat) : Scan Unit := do
  let start := (← get).mark
  skipMany width
  push kind start

/-- The end of the document's stream. -/
def streamEnd : Scan Unit := do
  modify fun r =>
    if r.mark.column = 0 then r
    else { r with mark.line := r.mark.line + 1, mark.column := 0 }
  let start := (← get).mark
  closeBlocks 0 start
  dropCandidate
  allowKey false
  push .streamEnd start

/-- What begins a line without being part of a document: directives and marks between documents. -/
def documentLevel (read : Scan TokenKind) : Scan Unit := do
  let start := (← get).mark
  closeBlocks 0 start
  dropCandidate
  allowKey false
  push (← read) start

/-- Opens a flow collection. -/
def flowStart (kind : TokenKind) : Scan Unit := do
  saveCandidate
  let r ← get
  set { r with
    candidates := { number := r.taken + r.queue.length, mark := r.mark } :: r.candidates
    flowDepth := r.flowDepth + 1
    keyAllowed := true }
  if depthLimit ≤ r.flowDepth then fail .tooDeep r.mark
  sign kind 1

/-- Closes a flow collection. -/
def flowEnd (kind : TokenKind) : Scan Unit := do
  dropCandidate
  if 0 < (← get).flowDepth then
    unawait (← candidate).number
    modify fun r =>
      { r with candidates := r.candidates.drop 1, flowDepth := r.flowDepth - 1 }
  allowKey false
  sign kind 1

/-- A comma between entries of a flow collection. -/
def flowEntry : Scan Unit := do
  dropCandidate
  allowKey true
  sign .flowEntry 1

/-- Opens a block collection at the place, for a sign that may only stand where a key may begin. -/
def openAtSign (kind : TokenKind) (problem : TokenProblem) : Scan Unit := do
  let r ← get
  if r.flowDepth = 0 then
    if !r.keyAllowed then fail problem r.mark
    openBlock r.mark.column (push kind r.mark)

/-- A hyphen before an entry of a block sequence. -/
def blockEntry : Scan Unit := do
  openAtSign .blockSequenceStart .entryNotAllowed
  dropCandidate
  allowKey true
  sign .blockEntry 1

/-- A question mark before a key. -/
def keySign : Scan Unit := do
  openAtSign .blockMappingStart .keyNotAllowed
  dropCandidate
  allowKey ((← get).flowDepth = 0)
  sign .key 1

/-- A colon before a value.  A candidate becomes a key by it. -/
def valueSign : Scan Unit := do
  let c ← candidate
  if ← isValid c then
    insertAt c.number .key c.mark
    openBlock c.mark.column (insertAt c.number .blockMappingStart c.mark)
    setCandidate { c with possible := false }
    unawait c.number
    allowKey false
  else
    setCandidate { c with possible := false }
    openAtSign .blockMappingStart .valueNotAllowed
    allowKey ((← get).flowDepth = 0)
  sign .value 1

/-- A token that may begin a key. -/
def keyPart (read : Scan TokenKind) : Scan Unit := do
  saveCandidate
  allowKey false
  let start := (← get).mark
  push (← read) start

/-- A block scalar. -/
def blockText : Scan Unit := do
  dropCandidate
  allowKey true
  let start := (← get).mark
  push (← blockScalar) start

/-- The signs that cannot begin a plain scalar. -/
def isSign (c : Char) : Bool :=
  ['-', '?', ':', ',', '[', ']', '\x7b', '\x7d', '#', '&', '*', '!', '|', '>', '\x27', '"', '%',
    '@', '\x60'].contains c

/-- Whether a plain scalar can begin with `c` before `d`. -/
def beginsPlain (inFlow : Bool) (c d : Char) : Bool :=
  !(isGap c || isSign c) || (c = '-' && !isBlank d)
    || (!inFlow && (c = '?' || c = ':') && !isGap d)

/-- Reads a token that is part of a document. -/
def contentToken : Scan Unit := do
  let r ← get
  let inFlow : Bool := 0 < r.flowDepth
  let c := r.source.ahead 0
  let d := r.source.ahead 1
  if c = '[' then flowStart .flowSequenceStart
  else if c = '\x7b' then flowStart .flowMappingStart
  else if c = ']' then flowEnd .flowSequenceEnd
  else if c = '\x7d' then flowEnd .flowMappingEnd
  else if c = ',' then flowEntry
  else if c = '-' && isGap d then blockEntry
  else if c = '?' && (inFlow || isGap d) then keySign
  else if c = ':' && (inFlow || isGap d) then valueSign
  else if c = '*' then keyPart (return .aliasName (← anchorName))
  else if c = '&' then keyPart (return .anchor (← anchorName))
  else if c = '!' then keyPart tag
  else if (c = '|' || c = '>') && !inFlow then blockText
  else if c = '\x27' || c = '"' then keyPart quotedScalar
  else if beginsPlain inFlow c d then keyPart plainScalar
  else fail .noToken r.mark
  -- after a lone hyphen a comment belongs to what follows
  if (← get).queue.getLast?.map (·.kind) ≠ some .blockEntry then skipTrailingComment

/-- Reads the next token, with those that the layout puts before it. -/
def fetch : Scan Unit := do
  need 1
  if !(← get).started then
    modify fun r => { r with started := true, candidates := [{}] }
    push .streamStart (← get).mark
  else
    let start := (← get).mark
    skipGap
    closeBlocks ((← get).mark.column + 1) start
    need 4
    let r ← get
    let c := r.source.ahead 0
    if isEnd c then streamEnd
    else if r.mark.column = 0 && c = '%' then documentLevel directive
    else if ← atDocumentMark then
      documentLevel do
        skipMany 3
        return if c = '-' then .documentStart else .documentEnd
    else contentToken

/-- The number of tokens that are read ahead. -/
def tokensAhead : Nat := 3

/-- Whether the next token may still turn out to begin a key. -/
def headAwaited : Scan Bool := do
  let r ← get
  match r.awaited.lookup r.taken with
  | none => return false
  | some depth =>
    let k := r.flowDepth - depth
    let c := (r.candidates.drop k).headD {}
    if ← isValid c then return true
    else
      modify fun r => { r with candidates := r.candidates.modify k ({ · with possible := false }) }
      return false

/-- Whether more tokens must be read before the next one is known. -/
def wantsMore : Scan Bool := do
  if hasAtLeast tokensAhead (← get).queue then headAwaited else return true

/-- The next token. -/
def peek : Scan Token := do
  loop (fun _ => do
    if ← wantsMore then
      fetch
      return ((), true)
    else return ((), false)) ()
  let r ← get
  return r.queue.headD ⟨.streamEnd, r.mark⟩

/-- Takes the next token. -/
def takeToken : Scan Unit :=
  modify fun r => { r with queue := r.queue.drop 1, taken := r.taken + 1 }

end SqlStubs.Yaml.Scan
