import SqlStubs.Parser.Type

/-!
# Functions

```
function    → FUNCTION qualifiedName "(" [argument ("," argument)*] ")"
              [RETURNS [SETOF] type] option*
argument    → [IN | OUT | INOUT | VARIADIC] [name] type [default]
option      → LANGUAGE (name | STRING) | IMMUTABLE | STABLE | VOLATILE | STRICT | WINDOW
            | [NOT] LEAKPROOF | CALLED ON NULL INPUT | RETURNS NULL ON NULL INPUT
            | [EXTERNAL] SECURITY (INVOKER | DEFINER) | COST number | ROWS number
            | AS STRING ["," STRING]
```

Of two names at the front of an argument the first is its name, unless both are the words of a type.
A word that is a mode is one only before a name.  Options are read and dropped.
-/

namespace SqlStubs

/-- The mode that a keyword stands for. -/
def argumentMode? : Kind → Option ArgumentMode
  | .keyword .in_ => some .input
  | .keyword .out => some .output
  | .keyword .inout => some .inputOutput
  | .keyword .variadic => some .variadic
  | _ => none

/-- The keywords that begin a function option. -/
def optionWords : List Keyword :=
  [.language, .immutable, .stable, .volatile, .strict, .window, .leakproof, .not_, .called,
    .returns, .external, .security, .cost, .rows, .as_]

/-- Whether a token of this kind begins a function option. -/
def startsOption : Kind → Bool
  | .keyword k => optionWords.contains k
  | _ => false

/-- The tokens without a first comma and a string after it. -/
def Tokens.dropCommaString (ts : Tokens) : Tokens :=
  if ts.current.kind = .comma then ts.advance.dropKind .string else ts

namespace Parser

/-- The mode of an argument. -/
def argumentMode : Parser ArgumentMode := do
  let first ← current
  let second ← peek
  match argumentMode? first.kind with
  | some mode =>
    if second.kind.isName then
      next
      return mode
    else return .unmarked
  | none => return .unmarked

/-- The name of an argument, if it has one. -/
def argumentName : Parser Text := do
  let first ← current
  let second ← peek
  if first.kind.isName && second.kind.isName && (twoWordType? first.kind second.kind).isNone then
    identifier .argumentName
  else return []

/-- An argument. -/
def argument (modes : Bool) : Parser Argument := do
  let mode ← if modes then argumentMode else pure .unmarked
  let name ← argumentName
  let type ← type
  let default ← defaultClause
  return { mode, name, type, default }

/-- One argument or several. -/
def arguments (modes : Bool) : Parser (List Argument) :=
  commaSeparated ((argument modes).catchUp (Tokens.dropKind .comma))

/-- The declared result of a function.  `RETURNS NULL` is an option and not a result. -/
def returnClause : Parser (Option ReturnClause) := do
  let first ← current
  let second ← peek
  if first.kind = .keyword .returns && second.kind ≠ .keyword .null then
    next
    let setOf ← accept (.keyword .setof)
    let type ← type
    return some { setOf, type }
  else return none

/-- Whose rights a function has. -/
def securityKind : Parser Unit := do
  unless ← accept (.keyword .invoker) do
    unless ← accept (.keyword .definer) do
      unexpected .security

/-- A function option. -/
def functionOption : Parser Unit := do
  let t ← current
  next
  match t.kind with
  | .keyword .language =>
    unless ← accept .string do
      discard <| identifier .languageName
  | .keyword .not_ => expect (.keyword .leakproof)
  | .keyword .called => expectAll [.keyword .on, .keyword .null, .keyword .input]
  | .keyword .returns =>
    expectAll [.keyword .null, .keyword .on, .keyword .null, .keyword .input]
  | .keyword .external =>
    expect (.keyword .security)
    securityKind
  | .keyword .security => securityKind
  | .keyword .cost | .keyword .rows =>
    unless ← accept .integer do
      unless ← accept .float do
        unexpected .number
  | .keyword .as_ =>
    (expect .string).catchUp Tokens.dropCommaString
    if ← accept .comma then expect .string
  | _ => return ()

/-- The arguments of a function, up to the closing parenthesis. -/
def functionArguments : Parser (List Argument) := do
  let t ← current
  if t.kind = .rightParen then return [] else arguments true

/-- The name and the arguments of a function, up to the closing parenthesis. -/
def functionSignature : Parser (Text × List Argument) := do
  let name ← (qualifiedName .functionName).before .leftParen
  let args ← functionArguments
  return (name, args)

/-- A function declaration, from `FUNCTION` up to the semicolon. -/
def function : Parser FunctionDeclaration := do
  expect (.keyword .function)
  let (name, arguments) ← functionSignature.before .rightParen
  let returns ← returnClause
  discard <| many startsOption functionOption
  return { name, arguments, returns }

end Parser

end SqlStubs
