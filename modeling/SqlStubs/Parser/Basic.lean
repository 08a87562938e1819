import SqlStubs.Declaration
import SqlStubs.Lexer
import SqlStubs.SyntaxError

/-!
# Parsers

A parser reads from the front of a sequence of tokens.  It gives a value or the first error, and in
both cases the tokens that it left: after an error the tokens that would close what was being read
are still taken (`Parser.catchUp`, `Parser.before`), so that a failed statement is left near its
end.  Repetition is `Parser.many`, which goes on only while tokens are taken.
-/

namespace SqlStubs

namespace Tokens

/-- The first token that is left. -/
def current (ts : Tokens) : Token := ts.pending.headD ts.eof

/-- The token after the first that is left. -/
def peek (ts : Tokens) : Token := ts.pending.tail.headD ts.eof

/-- The tokens without the first.  The end stays where it is. -/
def advance (ts : Tokens) : Tokens := { ts with pending := ts.pending.tail }

/-- The number of tokens before the end. -/
def size (ts : Tokens) : Nat := ts.pending.length

/-- The tokens without the first if it is of this kind. -/
def dropKind (kind : Kind) (ts : Tokens) : Tokens :=
  if ts.current.kind = kind then ts.advance else ts

/-- The tokens without the first if it is a name. -/
def dropName (ts : Tokens) : Tokens := if ts.current.kind.isName then ts.advance else ts

end Tokens

/-- A parser. -/
abbrev Parser := EStateM SyntaxError Tokens

namespace Parser

variable {α β : Type}

/-- The first token that is left. -/
def current : Parser Token := fun ts => .ok ts.current ts

/-- The token after the first that is left. -/
def peek : Parser Token := fun ts => .ok ts.peek ts

/-- Takes one token. -/
def next : Parser Unit := fun ts => .ok () ts.advance

/-- Fails at the first token that is left. -/
def fail (cause : Token → SyntaxCause) : Parser α := fun ts =>
  .error ⟨ts.current.location, .atToken ts.current (cause ts.current)⟩ ts

/-- Fails because the first token is not what was looked for. -/
def unexpected (expected : Expectation) : Parser α :=
  fail fun t => .unexpected t.kind t.text expected

/-- Takes a token if it is of this kind, and says whether it did. -/
def accept (kind : Kind) : Parser Bool := fun ts =>
  if ts.current.kind = kind then .ok true ts.advance else .ok false ts

/-- Takes a token of this kind or fails. -/
def expect (kind : Kind) : Parser Unit := do
  unless ← accept kind do unexpected (.token kind)

/-- Takes tokens of these kinds in turn. -/
def expectAll (kinds : List Kind) : Parser Unit := kinds.forM expect

/-- Lets `f` take further tokens if `p` fails. -/
def catchUp (p : Parser α) (f : Tokens → Tokens) : Parser α := fun ts =>
  match p ts with
  | .ok a rest => .ok a rest
  | .error e rest => .error e (f rest)

/-- `p` and a token of this kind after it.  The token is also taken if `p` fails just before it. -/
def before (p : Parser α) (kind : Kind) : Parser α := do
  let a ← p.catchUp (Tokens.dropKind kind)
  expect kind
  return a

/-- Reads items as long as the first token can begin one. -/
def many (starts : Kind → Bool) (item : Parser α) : Parser (List α) := fun ts =>
  if starts ts.current.kind then
    match item ts with
    | .error e rest => .error e rest
    | .ok a rest =>
      if rest.size < ts.size then
        match many starts item rest with
        | .ok as rest => .ok (a :: as) rest
        | .error e rest => .error e rest
      else .ok [a] rest
  else .ok [] ts
termination_by ts => ts.size

/-- One item or several with commas between them. -/
def commaSeparated (item : Parser α) : Parser (List α) := do
  let first ← item
  let others ← many (· = .comma) do
    next
    item
  return first :: others

end Parser

end SqlStubs
