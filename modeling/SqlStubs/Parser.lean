import SqlStubs.Parser.Aggregate

/-!
# Statements

```
source      → statement*
statement   → ";" | COMMENT | NEWLINE | create ";"
create      → CREATE [OR REPLACE] (function | aggregate)
```

`Parser.next?` reads one statement at a time and tells what is wrong with one that does not follow
the grammar.  `Tokens.skipStatement` then goes on after the next semicolon; `Parser.items` reads a
whole source in this way.
-/

namespace SqlStubs

/-- What stands at one place of a source: a statement, or an error where there should be one. -/
inductive Item where
  | statement (s : Statement)
  | failure (e : SyntaxError)
deriving Repr, DecidableEq

/-- Whether an item is an error. -/
def Item.isFailure : Item → Bool
  | .statement _ => false
  | .failure _ => true

/-- The tokens after the next semicolon. -/
def Tokens.skipStatement (ts : Tokens) : Tokens :=
  Tokens.dropKind .semicolon
    { ts with pending := ts.pending.dropWhile fun t => t.kind ≠ .semicolon && t.kind ≠ .eof }

namespace Parser

/-- What `CREATE` declares. -/
def declaration : Parser StatementBody := do
  let t ← current
  match t.kind with
  | .keyword .function => return .function (← function)
  | .keyword .aggregate | .keyword .ordered => return .aggregate (← aggregate)
  | _ => unexpected .declaration

/-- A declaration from `CREATE` through its semicolon. -/
def create : Parser StatementBody := do
  expect (.keyword .create)
  if ← accept (.keyword .or_) then expect (.keyword .replace)
  let body ← declaration
  expect .semicolon
  return body

/-- What a statement is. -/
def statementBody : Parser StatementBody := do
  let t ← current
  match t.kind with
  | .semicolon =>
    next
    return .empty
  | .comment =>
    next
    return .comment t.text
  | .newline =>
    next
    return .newline
  | .keyword .create => create
  | _ => fail fun t => .unexpectedStart t.kind t.text

/-- The next statement or error and the tokens after it; nothing at the end of the source. -/
def next? (ts : Tokens) : Option (Item × Tokens) :=
  if ts.current.kind = .eof then none
  else match statementBody ts with
    | .ok body rest => some (.statement ⟨ts.current.location, body⟩, rest)
    | .error e rest => some (.failure e, rest)

/-- The next item of a source and the place to go on: after an error, behind the next semicolon. -/
def nextItem? (ts : Tokens) : Option (Item × Tokens) :=
  (next? ts).map fun (item, rest) => (item, if item.isFailure then rest.skipStatement else rest)

/-- The statements and errors of a source. -/
def items (ts : Tokens) : List Item :=
  match nextItem? ts with
  | none => []
  | some (item, rest) => if rest.size < ts.size then item :: items rest else [item]
termination_by ts.size

/-- The statements of a source up to the first error, and the error. -/
def itemsToFailure (ts : Tokens) : List Item :=
  let all := items ts
  all.takeWhile (fun i => !i.isFailure) ++ (all.dropWhile fun i => !i.isFailure).take 1

end Parser

end SqlStubs
