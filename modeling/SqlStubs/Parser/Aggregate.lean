import SqlStubs.Parser.Function

/-!
# Aggregates

```
aggregate   → [ORDERED] AGGREGATE qualifiedName "(" ("*" | argument ("," argument)*) ")"
              "(" option ("," option)* ")"
option      → (SFUNC | PREFUNC | COMBINEFUNC | FINALFUNC) "=" qualifiedName
            | STYPE "=" type
            | INITCOND "=" expression
```

The arguments of an aggregate have no mode.  `SORTOP` is known and refused.
-/

namespace SqlStubs

/-- The kind of option that names a function after this keyword. -/
def functionOptionKind? : Kind → Option OptionKind
  | .keyword .sfunc => some .sfunc
  | .keyword .prefunc => some .prefunc
  | .keyword .combinefunc => some .prefunc
  | .keyword .finalfunc => some .finalfunc
  | _ => none

namespace Parser

/-- An option of an aggregate. -/
def aggregateOption : Parser AggregateOption := do
  let t ← current
  match functionOptionKind? t.kind with
  | some kind =>
    next
    (expect .equals).catchUp Tokens.dropName
    let value ← qualifiedName .functionName
    return { location := t.location, kind, value }
  | none =>
    match t.kind with
    | .keyword .stype =>
      next
      expect .equals
      let value ← type
      return { location := t.location, kind := .stype, value }
    | .keyword .initcond =>
      next
      expect .equals
      let value ← expression
      return { location := t.location, kind := .initcond, value }
    | .keyword .sortop => fail fun t => .unsupportedOption t.kind
    | _ => fail fun t => .unknownOption t.kind t.text

/-- The name of an aggregate with the words before it. -/
def aggregateName : Parser Text := do
  discard <| accept (.keyword .ordered)
  (expect (.keyword .aggregate)).catchUp Tokens.dropName
  qualifiedName .aggregateName

/-- The arguments of an aggregate, up to the closing parenthesis: a star alone, or arguments. -/
def aggregateArguments : Parser (Bool × List Argument) := do
  if ← accept .star then return (true, [])
  else
    let args ← arguments false
    return (false, args)

/-- The name and the arguments of an aggregate, up to the closing parenthesis. -/
def aggregateSignature : Parser (Text × Bool × List Argument) := do
  let name ← (aggregateName.before .leftParen).catchUp (Tokens.dropKind .star)
  let args ← aggregateArguments
  return (name, args)

/-- All of an aggregate up to the last parenthesis. -/
def aggregateBody : Parser AggregateDeclaration := do
  let (name, wildcard, arguments) ← (aggregateSignature.before .rightParen).before .leftParen
  let options ← commaSeparated aggregateOption
  return { name, wildcard, arguments, options }

/-- An aggregate declaration, from `ORDERED` or `AGGREGATE` up to the semicolon. -/
def aggregate : Parser AggregateDeclaration := aggregateBody.before .rightParen

end Parser

end SqlStubs
