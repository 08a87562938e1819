import SqlStubs.Parser.Name

/-!
# Types and default values

```
type        → baseType ("[" [INTEGER] "]")*
baseType    → (DOUBLE PRECISION | CHARACTER VARYING | BIT VARYING) [modifiers]
            | (TIME | TIMESTAMP) [modifiers] [(WITH | WITHOUT) TIME ZONE]
            | qualifiedName [modifiers]
modifiers   → "(" INTEGER ("," INTEGER)* ")"
default     → mark expression | "/*+" mark expression "*/"
mark        → DEFAULT | "="
expression  → (("+" | "-") (INTEGER | FLOAT | name) | value) ["::" type]
value       → INTEGER | FLOAT | STRING | NULL | TRUE | FALSE | name
```

Modifiers are read and dropped, and a type of several words is shown by its one-word name.
-/

namespace SqlStubs

/-- The one-word name of a type that begins with these two words. -/
def twoWordType? : Kind → Kind → Option Text
  | .keyword .double, .keyword .precision => some (Text.utf8 "float8")
  | .keyword .character, .keyword .varying => some (Text.utf8 "varchar")
  | .keyword .bit, .keyword .varying => some (Text.utf8 "varbit")
  | _, _ => none

/-- The name of a time type without a zone. -/
def timeType? : Kind → Option Text
  | .keyword .time => some (Text.utf8 "time")
  | .keyword .timestamp => some (Text.utf8 "timestamp")
  | _ => none

/-- Whether a sign may stand before a token of this kind. -/
def isOperand (kind : Kind) : Bool := kind = .integer || kind = .float || kind.isName

/-- Whether a token of this kind is a value by itself. -/
def isValue : Kind → Bool
  | .integer | .float | .string | .keyword .null | .keyword .true_ | .keyword .false_ => true
  | kind => kind.isName

/-- The tokens without a first `WITH` or `WITHOUT`. -/
def Tokens.dropZoneMark (ts : Tokens) : Tokens :=
  match ts.current.kind with
  | .keyword .with_ | .keyword .without => ts.advance
  | _ => ts

namespace Parser

/-- Modifiers of a type, if there are any. -/
def typeModifiers : Parser Unit := do
  if ← accept .leftParen then
    let bound := (expect .integer).catchUp (Tokens.dropKind .comma)
    discard <| (commaSeparated bound).before .rightParen

/-- The rest of a time type after its first word: modifiers and a zone clause. -/
def zone (base : Text) : Parser Text := do
  typeModifiers.catchUp Tokens.dropZoneMark
  if ← accept (.keyword .with_) then
    expectAll [.keyword .time, .keyword .zone]
    return base ++ Text.utf8 "tz"
  else if ← accept (.keyword .without) then
    expectAll [.keyword .time, .keyword .zone]
    return base
  else return base

/-- One pair of array brackets, with a bound if there is one. -/
def arrayBounds : Parser Text := do
  expect .leftBracket
  let t ← current
  if t.kind = .integer then
    next
    expect .rightBracket
    return Text.utf8 "[" ++ t.text ++ Text.utf8 "]"
  else
    expect .rightBracket
    return Text.utf8 "[]"

/-- A type without array brackets. -/
def baseType : Parser Text := do
  let first ← current
  let second ← peek
  match twoWordType? first.kind second.kind with
  | some name =>
    next
    next
    typeModifiers
    return name
  | none =>
    match timeType? first.kind with
    | some name =>
      next
      zone name
    | none =>
      if first.kind.isName then
        let name ← qualifiedName .typeName
        typeModifiers
        return name
      else unexpected .type

/-- A type. -/
def type : Parser Text := do
  let base ← baseType
  let bounds ← many (· = .leftBracket) arrayBounds
  return base ++ bounds.flatten

/-- An expression without a cast. -/
def operand : Parser Text := do
  let t ← current
  if t.kind = .plus || t.kind = .minus then
    next
    let u ← current
    if isOperand u.kind then
      next
      return t.text ++ u.text
    else unexpected .operand
  else if isValue t.kind then
    next
    return t.text
  else unexpected .value

/-- An expression. -/
def expression : Parser Text := do
  let value ← operand
  if ← accept .doubleColon then
    let cast ← type
    return value ++ Text.utf8 "::" ++ cast
  else return value

/-- A default value with its mark. -/
def markedDefault : Parser Text := do
  if ← accept (.keyword .default_) then expression
  else if ← accept .equals then expression
  else unexpected .defaultMark

/-- A default value, if there is one; in a comment or not. -/
def defaultClause : Parser Text := do
  let t ← current
  match t.kind with
  | .escapeOpen =>
    next
    markedDefault.before .escapeClose
  | .keyword .default_ | .equals => markedDefault
  | _ => return []

end Parser

end SqlStubs
