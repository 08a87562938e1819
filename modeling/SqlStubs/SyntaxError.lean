import SqlStubs.Text.Quoted
import SqlStubs.Token

/-!
# Syntax errors

Why a statement cannot be read, and where.  A cause keeps the token that was found as its kind and
text; the wording is in `SyntaxCause.message`.
-/

namespace SqlStubs

/-- What a parser was looking for. -/
inductive Expectation where
  | token (kind : Kind)
  | functionName | aggregateName | argumentName | typeName | languageName
  | type | number | operand | value
  | declaration | security | defaultMark
deriving Repr, DecidableEq

/-- An expectation as messages show it. -/
def Expectation.text : Expectation → Text
  | token kind => kind.name
  | functionName => Text.utf8 "function name"
  | aggregateName => Text.utf8 "aggregate name"
  | argumentName => Text.utf8 "argument name"
  | typeName => Text.utf8 "type name"
  | languageName => Text.utf8 "language name"
  | type => Text.utf8 "type"
  | number => Text.utf8 "number"
  | operand => Text.utf8 "number or identifier"
  | value => Text.utf8 "default value"
  | declaration => Text.utf8 "FUNCTION or AGGREGATE"
  | security => Text.utf8 "INVOKER or DEFINER"
  | defaultMark => Text.utf8 "DEFAULT or ="

/-- Why a statement cannot be read. -/
inductive SyntaxCause where
  /-- A byte that begins nothing. -/
  | illegalByte (byte : Text)
  /-- A quotation or comment without its end. -/
  | unclosed (what : Unclosed)
  /-- Another token than the one that was looked for. -/
  | unexpected (kind : Kind) (text : Text) (expected : Expectation)
  /-- A token that begins no statement. -/
  | unexpectedStart (kind : Kind) (text : Text)
  /-- An aggregate option that is known but cannot be used. -/
  | unsupportedOption (kind : Kind)
  /-- A token that begins no aggregate option. -/
  | unknownOption (kind : Kind) (text : Text)
deriving Repr, DecidableEq

/-- A token as messages show it: with its text if that can vary. -/
def describe (kind : Kind) (text : Text) : Text :=
  match kind with
  | .identifier | .integer | .float | .string => kind.name ++ Text.utf8 " " ++ Text.quoted text
  | .keyword k => Text.utf8 "keyword " ++ k.name
  | _ => kind.name

namespace SyntaxCause

/-- Whether the cause is a token that cannot be read, rather than one at the wrong place. -/
def isLexical : SyntaxCause → Bool
  | illegalByte _ | unclosed _ => true
  | _ => false

/-- The wording of a cause. -/
def message : SyntaxCause → Text
  | illegalByte byte => Text.utf8 "illegal character " ++ Text.quoted byte
  | unclosed what => what.message
  | unexpected kind text expected =>
    Text.utf8 "syntax error, unexpected " ++ describe kind text ++ Text.utf8 ", expecting "
      ++ expected.text
  | unexpectedStart kind text =>
    Text.utf8 "syntax error, unexpected " ++ describe kind text
      ++ Text.utf8 " at start of statement"
  | unsupportedOption kind =>
    Text.utf8 "aggregate option " ++ kind.name ++ Text.utf8 " is not supported"
  | unknownOption kind text => Text.utf8 "unknown aggregate option " ++ describe kind text

/-- The cause of an error at a token: a token that cannot be read is itself the cause, whatever was
looked for. -/
def atToken (t : Token) (otherwise : SyntaxCause) : SyntaxCause :=
  match t.kind with
  | .illegal .byte => illegalByte t.text
  | .illegal (.unclosed what) => unclosed what
  | _ => otherwise

end SyntaxCause

/-- An error and its place. -/
structure SyntaxError where
  location : Location
  cause : SyntaxCause
deriving Repr, DecidableEq

/-- An error as diagnostics show it. -/
def SyntaxError.text (filename : Text) (e : SyntaxError) : Text :=
  e.location.text filename ++ Text.utf8 ": " ++ e.cause.message

end SqlStubs
