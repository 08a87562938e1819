import SqlStubs.Lexer.Gap
import SqlStubs.Lexer.Number
import SqlStubs.Lexer.Quotation
import SqlStubs.Token

/-!
# Reading one token

`read` reads the token at the front of a text from which the gap has been skipped.  Its bytes and
what is left make up the text (`whole_read`), and it takes at least one byte unless the text is at
its end (`text_read`), so reading token after token comes to an end and loses nothing.
-/

namespace SqlStubs.Lexer

/-- A token that was read, without its place. -/
structure Reading where
  kind : Kind
  /-- The bytes that the token stands for. -/
  text : Text
  /-- The text after them. -/
  rest : Text
  /-- The mode after the token. -/
  mode : Mode
  /-- Whether the reader stepped over a byte past the end. -/
  overrun : Bool := false
deriving Repr, DecidableEq

namespace Reading

/-- The token is the part that a cut took. -/
def ofCut (kind : Kind) (c : Cut) (mode : Mode) : Reading := ⟨kind, c.taken, c.rest, mode, false⟩

/-- The text is at its end. -/
def atEnd (mode : Mode) : Reading := ⟨.eof, [], [], mode, false⟩

/-- Something began that never ends: it stands for all the rest. -/
def unclosed (what : Unclosed) (s : Text) (mode : Mode) : Reading :=
  ⟨.illegal (.unclosed what), s, [], mode, false⟩

end Reading

/-- The kind of a byte that is a token wherever it stands in a statement. -/
def punctuation? : UInt8 → Option Kind
  | 0x2C => some .comma
  | 0x28 => some .leftParen
  | 0x29 => some .rightParen
  | 0x5B => some .leftBracket
  | 0x5D => some .rightBracket
  | 0x3D => some .equals
  | 0x2B => some .plus
  | 0x2D => some .minus
  | _ => none

/-- The kind of a number: an integer is digits only. -/
def numberKind (s : Text) : Kind := if s.all Text.isDigit then .integer else .float

/-- The kind of an unquoted word. -/
def wordKind (s : Text) : Kind :=
  match Keyword.ofText? s with
  | some k => .keyword k
  | none => .identifier

/-- Reads a string after its opening part: through its end, or all the rest. -/
def readString (opening : Text) (body? : Option Cut) (whole : Text) (mode : Mode) : Reading :=
  match body? with
  | some c => .ofCut .string (c.prepend opening) mode
  | none => .unclosed .string whole mode

/-- Reads a dollar string, or a dollar sign that opens none. -/
def readDollar (s : Text) (mode : Mode) : Reading :=
  match dollarDelimiter? s with
  | some delimiter =>
    readString delimiter.taken (closeDelimiter? delimiter.taken delimiter.rest) s mode
  | none => ⟨.illegal .byte, s.take 1, s.drop 1, mode, false⟩

/-- Whether a text begins with an `E` string. -/
def startsEscapedString : Text → Bool
  | b :: 0x27 :: _ => b = 0x45 || b = 0x65
  | _ => false

/-- Reads the token at the front of a text that is neither punctuation, number nor word. -/
def readMark (mode : Mode) : Text → Reading
  | 0x3B :: s => ⟨.semicolon, [0x3B], s, .between, false⟩
  | 0x2E :: s => ⟨.dot, [0x2E], s, mode, false⟩
  | 0x2A :: 0x2F :: s =>
    if mode = .escape then ⟨.escapeClose, [0x2A, 0x2F], s, .inside, false⟩
    else ⟨.star, [0x2A], 0x2F :: s, mode, false⟩
  | 0x2A :: s => ⟨.star, [0x2A], s, mode, false⟩
  | 0x2F :: 0x2A :: s =>
    if mode ≠ .escape ∧ s.head? = some 0x2B then
      ⟨.escapeOpen, 0x2F :: 0x2A :: s.take 1, s.drop 1, .escape, false⟩
    else .unclosed .comment (0x2F :: 0x2A :: s) mode
  | 0x3A :: 0x3A :: s => ⟨.doubleColon, [0x3A, 0x3A], s, mode, false⟩
  | 0x27 :: s => readString [0x27] (closeDoubled? 0x27 s) (0x27 :: s) mode
  | 0x22 :: s =>
    match closeDoubled? 0x22 s with
    | some c => .ofCut .identifier (c.prepend [0x22]) mode
    | none => .unclosed .identifier (0x22 :: s) mode
  | 0x24 :: s => readDollar (0x24 :: s) mode
  | b :: s => ⟨.illegal .byte, [b], s, mode, false⟩
  | [] => .atEnd mode

/-- Reads the token at the front of a text inside a statement. -/
def readInside (mode : Mode) (s : Text) : Reading :=
  match s with
  | [] => .atEnd mode
  | b :: rest =>
    match punctuation? b with
    | some kind => ⟨kind, [b], rest, mode, false⟩
    | none =>
      -- an `E` before an apostrophe is no word, so strings come first
      if startsEscapedString s then
        { readString [b, 0x27] (closeEscaped? (rest.drop 1)) s mode with
          overrun := (closeEscaped? (rest.drop 1)).isNone && escapesPastEnd (rest.drop 1) }
      else if startsNumber s then .ofCut (numberKind (number s).taken) (number s) mode
      else if isNameStart b then
        .ofCut (wordKind (Cut.span isNameByte s).taken) (Cut.span isNameByte s) mode
      else readMark mode s

/-- Reads a token that exists between statements only: a comment, a line break or the end. -/
def readBetween? : Text → Option Reading
  | [] => some (.atEnd .between)
  | 0x0A :: s => some ⟨.newline, [0x0A], s, .between, false⟩
  | 0x2D :: 0x2D :: s =>
    some (.ofCut .comment ((restOfLine s).prepend [0x2D, 0x2D]) .between)
  | 0x2F :: 0x2A :: s =>
    match blockComment? (0x2F :: 0x2A :: s) with
    | some c => some (.ofCut .comment c .between)
    | none => some (.unclosed .comment (0x2F :: 0x2A :: s) .between)
  | _ => none

/-- Reads the token at the front of a text from which the gap has been skipped.  Between statements
everything but a comment or a line break begins a statement. -/
def read (mode : Mode) (s : Text) : Reading :=
  match mode with
  | .between => (readBetween? s).getD (readInside .inside s)
  | mode => readInside mode s

/-! ### Nothing is lost -/

/-- A string is its opening and what it is read through, or else all that is left. -/
theorem whole_readString {opening whole : Text} {body? : Option Cut} {mode : Mode}
    (h : ∀ c, body? = some c → opening ++ c.whole = whole) :
    (readString opening body? whole mode).text ++ (readString opening body? whole mode).rest
      = whole := by
  unfold readString
  split
  · rename_i c
    have := h c rfl
    simpa [Reading.ofCut, Cut.whole] using this
  · simp [Reading.unclosed]

theorem whole_readDollar (s : Text) (mode : Mode) :
    (readDollar s mode).text ++ (readDollar s mode).rest = s := by
  unfold readDollar
  split
  · rename_i d hd
    refine whole_readString fun c hc => ?_
    rw [whole_closeDelimiter? hc]
    exact whole_dollarDelimiter? hd
  · exact List.take_append_drop 1 s

/-- Whatever is read that is neither a word nor a number, nothing is lost. -/
theorem whole_readMark (mode : Mode) (s : Text) :
    (readMark mode s).text ++ (readMark mode s).rest = s := by
  unfold readMark
  split
  · rfl
  · rfl
  · split <;> rfl
  · rfl
  -- a comment opener that was not skipped opens an escape, or a comment without an end
  · split
    · simp only [List.cons_append, List.take_append_drop]
    · simp [Reading.unclosed]
  · rfl
  · exact whole_readString fun c hc => by rw [whole_closeDoubled? hc]; rfl
  · split
    · rename_i c hc
      have := whole_closeDoubled? hc
      simpa [Reading.ofCut, Cut.whole] using this
    · simp [Reading.unclosed]
  · exact whole_readDollar _ mode
  · rfl
  · rfl

/-- After the letter of an `E` string there is an apostrophe. -/
theorem eq_cons_of_startsEscapedString {b : UInt8} {s : Text}
    (h : startsEscapedString (b :: s) = true) : s = 0x27 :: s.drop 1 := by
  unfold startsEscapedString at h
  split at h
  · rename_i t heq
    cases heq
    rfl
  · cases h

/-- Whatever does not begin a name begins no `E` string either. -/
theorem startsEscapedString_eq_false {b : UInt8} {s : Text} (hb : isNameStart b = false) :
    startsEscapedString (b :: s) = false := by
  unfold startsEscapedString
  split
  · rename_i heq
    obtain ⟨rfl, -⟩ := List.cons.inj heq
    -- both letters begin a name
    rw [← Bool.not_eq_true, Bool.or_eq_true, decide_eq_true_iff, decide_eq_true_iff]
    rintro (rfl | rfl) <;> cases hb
  · rfl

/-- Inside a statement nothing is lost, whatever kind of token is read. -/
theorem whole_readInside (mode : Mode) (s : Text) :
    (readInside mode s).text ++ (readInside mode s).rest = s := by
  unfold readInside
  split
  · rfl
  · rename_i b rest
    split
    · rfl
    · split
      · rename_i h
        -- the opening of an `E` string is the letter and the apostrophe
        refine whole_readString fun c hc => ?_
        rw [whole_closeEscaped? hc, List.cons_append, List.singleton_append,
          ← eq_cons_of_startsEscapedString h]
      · split
        · exact whole_number _
        · split
          · exact Cut.whole_span _ _
          · exact whole_readMark mode _

theorem whole_readBetween? {s : Text} {r : Reading} (h : readBetween? s = some r) :
    r.text ++ r.rest = s := by
  unfold readBetween? at h
  split at h
  · cases h; rfl
  · cases h; rfl
  · cases h
    -- a line comment, which goes up to the line break
    have := Cut.whole_span (· ≠ 0x0A) (by assumption : Text)
    simp only [Reading.ofCut, restOfLine, Cut.taken_prepend, Cut.rest_prepend, List.append_assoc]
    exact congrArg (fun t => 0x2D :: 0x2D :: t) (Cut.whole_span _ _)
  · split at h
    · rename_i c hc
      cases h
      exact whole_blockComment? hc
    · cases h
      simp [Reading.unclosed]
  · cases h

/-- The bytes of a token and the text after them make up the text it was read from. -/
theorem whole_read (mode : Mode) (s : Text) : (read mode s).text ++ (read mode s).rest = s := by
  unfold read
  split
  · cases h : readBetween? s with
    | none => exact whole_readInside _ s
    | some r => exact whole_readBetween? h
  · exact whole_readInside _ s

/-! ### Something is taken -/

/-- A string has its opening, or all that is left. -/
theorem text_readString {opening whole : Text} {body? : Option Cut} {mode : Mode}
    (ho : opening ≠ []) (hw : whole ≠ []) : (readString opening body? whole mode).text ≠ [] := by
  unfold readString
  split
  · simp [Reading.ofCut, ho]
  · exact hw

theorem text_readDollar {s : Text} {mode : Mode} (h : s ≠ []) : (readDollar s mode).text ≠ [] := by
  unfold readDollar
  split
  · rename_i d hd
    refine text_readString ?_ h
    -- the delimiter is not empty
    unfold dollarDelimiter? at hd
    split at hd
    · dsimp only at hd
      split at hd
      · split at hd
        · cases hd
        · cases hd; simp
      · cases hd
    · cases hd
  · cases s with
    | nil => exact absurd rfl h
    | cons => simp

theorem text_readMark {mode : Mode} {s : Text} (h : s ≠ []) : (readMark mode s).text ≠ [] := by
  unfold readMark
  split
  · simp
  · simp
  · split <;> simp
  · simp
  · split <;> simp [Reading.unclosed]
  · simp
  · exact text_readString (by simp) (by simp)
  · split <;> simp [Reading.ofCut, Reading.unclosed]
  · exact text_readDollar (by simp)
  · simp
  · exact absurd rfl h

/-- What can begin a name can also go on with it. -/
theorem isNameByte_of_isNameStart {b : UInt8} (h : isNameStart b = true) : isNameByte b = true := by
  simp only [isNameStart, Bool.or_eq_true] at h
  rcases h with ((h | h) | h) | h <;> simp [isNameByte, h]

/-- Inside a statement something is taken for every token. -/
theorem text_readInside {mode : Mode} {s : Text} (h : s ≠ []) : (readInside mode s).text ≠ [] := by
  unfold readInside
  split
  · exact absurd rfl h
  · split
    · simp
    · split
      · exact text_readString (by simp) (by simp)
      · split
        · rename_i hn
          exact taken_number hn
        · split
          · rename_i hs
            simp [Reading.ofCut, Cut.span, isNameByte_of_isNameStart hs]
          · exact text_readMark (by simp)

theorem text_readBetween? {s : Text} {r : Reading} (hr : readBetween? s = some r) (h : s ≠ []) :
    r.text ≠ [] := by
  unfold readBetween? at hr
  split at hr
  · exact absurd rfl h
  · cases hr; simp
  · cases hr; simp [Reading.ofCut]
  · split at hr
    · rename_i c hc
      cases hr
      exact taken_blockComment? hc
    · cases hr; simp [Reading.unclosed]
  · cases hr

/-- A token takes at least one byte unless the text is at its end. -/
theorem text_read {mode : Mode} {s : Text} (h : s ≠ []) : (read mode s).text ≠ [] := by
  unfold read
  split
  · cases hr : readBetween? s with
    | none => exact text_readInside h
    | some r => exact text_readBetween? hr h
  · exact text_readInside h

/-- At the end of the text the end is read, and the mode stays. -/
theorem read_nil (mode : Mode) : read mode [] = .atEnd mode := by
  cases mode <;> rfl

end SqlStubs.Lexer
