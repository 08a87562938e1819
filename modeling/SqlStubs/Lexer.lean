import SqlStubs.Lexer.Reading

/-!
# The tokens of a source

A lexer is the text still to be read, the place it begins at and the mode.  `Lexer.next` gives one
token after the other, and after the last one the end of the source as often as it is asked.
`Lexer.toEnd` gives the tokens of a whole source.  Every token but the end makes the text to be read
shorter (`Lexer.next_rest_lt`), so there are at most as many tokens as bytes.
-/

namespace SqlStubs

/-- A reader of tokens. -/
structure Lexer where
  /-- The text still to be read. -/
  rest : Text
  /-- The place where it begins. -/
  here : Location := {}
  mode : Lexer.Mode := .between
deriving Repr, DecidableEq

namespace Lexer

/-- The place after a byte that is not there: only the offset grows. -/
def overrun (l : Location) : Location := { l with offset := l.offset + 1 }

/-- The next token, and the lexer after it. -/
def next (l : Lexer) : Token × Lexer :=
  let gap := skip l.mode l.rest
  let r := read l.mode gap.rest
  let start := l.here.after gap.taken
  let stop := start.after r.text
  (⟨r.kind, r.text, start⟩, ⟨r.rest, if r.overrun then overrun stop else stop, r.mode⟩)

/-- The text that is left after a gap and a token. -/
theorem next_whole (l : Lexer) :
    (skip l.mode l.rest).taken ++ l.next.1.text ++ l.next.2.rest = l.rest := by
  have gap := whole_skip l.mode l.rest
  have token := whole_read l.mode (skip l.mode l.rest).rest
  simp only [next, List.append_assoc]
  rw [token]
  exact gap

/-- A token with bytes of its own makes the text to be read shorter. -/
theorem next_rest_lt {l : Lexer} (h : l.next.1.text ≠ []) :
    l.next.2.rest.length < l.rest.length := by
  have whole := congrArg List.length (next_whole l)
  have := List.length_pos_iff.2 h
  simp only [List.length_append] at whole
  omega

/-- Only the end of the source has no bytes. -/
theorem next_text_eq_nil {l : Lexer} (h : l.next.1.text = []) : l.next.1.kind = .eof := by
  by_cases hs : (skip l.mode l.rest).rest = []
  · simp only [next, hs, read_nil]
    rfl
  · exact absurd h (text_read hs)

/-- Every token but the end makes the text to be read shorter, which is why a source has an end. -/
theorem next_rest_lt_of_kind {l : Lexer} (h : l.next.1.kind ≠ .eof) :
    l.next.2.rest.length < l.rest.length :=
  next_rest_lt fun hn => h (next_text_eq_nil hn)

/-- A lexer at the start of a source. -/
def ofText (source : Text) : Lexer := { rest := source }

/-- The next `n` tokens. -/
def take : (n : Nat) → Lexer → List Token
  | 0, _ => []
  | n + 1, l =>
    let (token, after) := l.next
    token :: take n after

end Lexer

/-- The tokens of a source: those before its end, and the place of the end. -/
structure Tokens where
  /-- The tokens before the end. -/
  pending : List Token
  /-- Where the end is. -/
  stop : Location
deriving Repr, DecidableEq

/-- The token at the end. -/
def Tokens.eof (ts : Tokens) : Token := ⟨.eof, [], ts.stop⟩

namespace Lexer

/-- The tokens up to the end of the source, and the lexer that has read the end. -/
def toEnd (l : Lexer) : Tokens × Lexer :=
  let step := l.next
  if step.1.kind = .eof then (⟨[], step.1.location⟩, step.2)
  else
    let (ts, last) := toEnd step.2
    (⟨step.1 :: ts.pending, ts.stop⟩, last)
termination_by l.rest.length
decreasing_by exact next_rest_lt_of_kind (by assumption)

/-- The tokens of a source. -/
def tokens (source : Text) : Tokens := (ofText source).toEnd.1

/-- The tokens of a source through its end and `extra` more requests after that. -/
def listing (source : Text) (extra : Nat) : List Token :=
  let (ts, last) := (ofText source).toEnd
  ts.pending ++ ts.eof :: take extra last

/-- Whether nothing after this token is of use: the end, or something that cannot be read. -/
def isFinal (t : Token) : Bool :=
  match t.kind with
  | .eof | .illegal _ => true
  | _ => false

/-- The tokens of a source through the first that is final. -/
def tokenize (source : Text) : List Token :=
  let all := listing source 0
  all.takeWhile (fun t => !isFinal t) ++ (all.dropWhile fun t => !isFinal t).take 1

end Lexer

end SqlStubs
