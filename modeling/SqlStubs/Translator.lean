import SqlStubs.AggregateType
import SqlStubs.LineWriter
import SqlStubs.Log
import SqlStubs.Parser

/-!
# Translators

A translator reads sources and writes a stub for every declaration, on the line of the source where
the declaration begins.  Comments between statements pass through unchanged.  A strict translator
stops at the first statement that cannot be read; a lenient one leaves such statements out and
counts them.
-/

namespace SqlStubs

/-- How a translator writes. -/
structure TranslatorOptions where
  /-- The file name for diagnostics. -/
  filename : Text := []
  /-- The return type of a function that declares none. -/
  voidType : Text := []
  /-- The template around the type of a function that gives a set. -/
  setTemplate : Text := []
  /-- What stands before the stub of an aggregate. -/
  aggregateMarker : Text := []
  /-- Whether statements that cannot be read are left out. -/
  lenient : Bool := false
deriving Repr, DecidableEq

namespace TranslatorOptions

/-- The return type of a function that declares none, if nothing else is chosen. -/
def defaultVoidType : Text := Text.utf8 "void"

/-- The template for sets, if nothing else is chosen. -/
def defaultSetTemplate : Text := Text.utf8 "set"

/-- What stands before the stub of an aggregate, if nothing else is chosen. -/
def defaultAggregateMarker : Text := Text.utf8 "@aggregate"

/-- A text, or another if it is empty. -/
def orDefault (s default : Text) : Text := if s.isEmpty then default else s

/-- The options with defaults in place of what is empty. -/
def withDefaults (o : TranslatorOptions) : TranslatorOptions :=
  { o with
    voidType := orDefault o.voidType defaultVoidType
    setTemplate := orDefault o.setTemplate defaultSetTemplate
    aggregateMarker := orDefault o.aggregateMarker defaultAggregateMarker }

/-- The return type of a function as a stub shows it. -/
def returnType (o : TranslatorOptions) (d : FunctionDeclaration) : Text :=
  match d.returns with
  | none => o.voidType
  | some r =>
    if r.setOf then o.setTemplate ++ Text.utf8 "<" ++ r.type ++ Text.utf8 ">" else r.type

end TranslatorOptions

/-- A declaration as a stub, given what stands before its name. -/
def stub (head name : Text) (arguments : List Argument) : Text :=
  head ++ Text.utf8 " " ++ name ++ Text.utf8 "(" ++ Argument.listText arguments
    ++ Text.utf8 ") \x7b \x7d;"

/-- Why a translator stops. -/
inductive TranslatorFailure where
  /-- It was cancelled. -/
  | canceled
  /-- The source could not be read; the text says why. -/
  | unreadable (reason : Text)
  /-- The output could not be written. -/
  | unwritable
  /-- A statement could not be read. -/
  | invalid (filename : Text) (error : SyntaxError)
deriving Repr, DecidableEq

/-- What a sink says when it refuses bytes. -/
def sinkFull : Text := Text.utf8 "sink full"

/-- The wording of a failure to write. -/
def writeFailureText : Text := Text.utf8 "failed to write output: " ++ sinkFull

/-- The wording of a failure. -/
def TranslatorFailure.message : TranslatorFailure → Text
  | canceled => Text.utf8 "context canceled"
  | unreadable reason => Text.utf8 "failed to read input: " ++ reason
  | unwritable => writeFailureText
  | invalid filename error => error.text filename

/-- A translator in the middle of its work. -/
structure Translator where
  options : TranslatorOptions
  writer : LineWriter := {}
  /-- The functions declared so far. -/
  types : ReturnTypes := {}
  /-- The number of statements left out. -/
  skipped : Nat := 0
  /-- The log records, the latest first. -/
  log : List LogRecord := []
deriving Repr, DecidableEq

namespace Translator

/-- A new translator on a sink. -/
def new (options : TranslatorOptions) (sink : Sink) (types : ReturnTypes) : Translator :=
  { options := options.withDefaults, writer := .onSink sink, types }

/-- Writes a piece of output on the line where it belongs. -/
def emit (t : Translator) (line : Nat) (s : Text) : Translator :=
  { t with writer := (t.writer.advance line).write s }

/-- Adds a log record. -/
def record (t : Translator) (level : Level) (message : String)
    (fields : List (String × FieldValue)) : Translator :=
  { t with log := ⟨level, message, fields⟩ :: t.log }

/-- Writes a comment. -/
def comment (t : Translator) (line : Nat) (s : Text) : Translator :=
  (t.emit line s).record .debug "passed comment"
    [("kind", .text (CommentStyle.ofText s).name), ("line", .number line),
      ("lines", .number (Text.newlines s + 1))]

/-- Writes the stub of a function and remembers its return type. -/
def function (t : Translator) (line : Nat) (d : FunctionDeclaration) : Translator :=
  let type := t.options.returnType d
  let written := t.emit line (stub type d.name d.arguments)
  { written with types := t.types.insert d.name type }.record .debug "translated function"
    [("name", .text d.name), ("returns", .text type), ("line", .number line)]

/-- Writes the stub of an aggregate. -/
def aggregate (t : Translator) (line : Nat) (d : AggregateDeclaration) : Translator :=
  let type := d.type t.types
  let head := t.options.aggregateMarker ++ Text.utf8 " " ++ type
  (t.emit line (stub head d.name d.arguments)).record .debug "translated aggregate"
    [("name", .text d.name), ("type", .text type), ("line", .number line)]

/-- Writes what a statement stands for. -/
def apply (t : Translator) (s : Statement) : Translator :=
  match s.body with
  | .empty => t
  | .comment text => t.comment s.location.line text
  | .newline => { t with writer := t.writer.newline }
  | .function d => t.function s.location.line d
  | .aggregate d => t.aggregate s.location.line d

/-- Leaves out a statement. -/
def leaveOut (t : Translator) (e : SyntaxError) : Translator :=
  { t with skipped := t.skipped + 1 }.record .warn "skipping statement"
    [("error", .text (e.text t.options.filename))]

/-- Translates the items of a source in order. -/
def run (t : Translator) : List Item → Translator × Option TranslatorFailure
  | [] => (t, none)
  | .failure e :: rest =>
    if t.options.lenient then run (t.leaveOut e) rest
    else (t, some (.invalid t.options.filename e))
  | .statement s :: rest =>
    let t := t.apply s
    if t.writer.failed then (t, some .unwritable) else run t rest

/-- Translates a source. -/
def translate (t : Translator) (source : Text) : Translator × Option TranslatorFailure :=
  t.run (Parser.items (Lexer.tokens source))

/-- Translates a source unless that has been cancelled, which even an empty source notices. -/
def translateUnless (canceled : Bool) (t : Translator) (source : Text) :
    Translator × Option TranslatorFailure :=
  if canceled then (t, some .canceled) else t.translate source

/-- Hands all output to the sink. -/
def flush (t : Translator) : Translator := { t with writer := t.writer.flush }

/-- Ends the output with a line break and hands it to the sink. -/
def finish (t : Translator) : Translator := { t with writer := t.writer.newline.flush }

/-- Whether output was lost. -/
def failed (t : Translator) : Bool := t.writer.failed

/-- The log records in order. -/
def records (t : Translator) : List LogRecord := t.log.reverse

/-- The bytes that have reached the sink. -/
def output (t : Translator) : Text := t.writer.output

end Translator

end SqlStubs
