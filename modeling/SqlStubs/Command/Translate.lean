import SqlStubs.Command.World
import SqlStubs.Settings

/-!
# Translating one input

`translateInput` translates one source and ends the output with a line break.  If this fails, what
was written before is kept.  `translate` does so from a file or standard input to standard output.
-/

namespace SqlStubs.Command

/-- What became of one input. -/
structure Translated where
  sink : Sink
  records : List LogRecord
  failure : Option Failure
deriving Repr, DecidableEq

/-- The name of standard input in diagnostics. -/
def stdinName : Text := Text.utf8 "stdin"

/-- Log records below this level are not shown. -/
def leastLevel (s : Settings) : Level := if s.verbose then .debug else .warn

/-- The record of statements that were left out, if any were. -/
def skippedRecord (name : Text) (skipped : Nat) : List LogRecord :=
  if skipped = 0 then []
  else [⟨.warn, "skipped statements", [("file", .text name), ("count", .number skipped)]⟩]

/-- Translates a source, or fails with the reason why it could not be read. -/
def translateInput (s : Settings) (canceled : Bool) (name : Text) (source : Except Text Text)
    (sink : Sink) : Translated :=
  match source with
  | .error reason => ⟨sink, [], some (.input (TranslatorFailure.unreadable reason).message)⟩
  | .ok source =>
    let start := Translator.new (s.translatorOptions name) sink {}
    match Translator.translateUnless canceled start source with
    | (t, some failure) =>
      ⟨t.flush.writer.channel.sink, t.records, some (.input failure.message)⟩
    | (t, none) =>
      let records := t.records ++ skippedRecord name t.skipped
      let t := t.finish
      if t.failed then ⟨t.writer.channel.sink, records, some (.input writeFailureText)⟩
      else
        ⟨t.writer.channel.sink, records ++ [⟨.debug, "translated",
          [("file", .text name), ("functions", .number t.types.size)]⟩], none⟩

/-- The wording of an input that cannot be opened. -/
def openFailure (path : Text) (fault : FileFault) : Failure :=
  .usage (Text.utf8 "failed to open input: " ++ fault.describe "open" path)

/-- The source at a place, or the reason why it cannot be read. -/
def sourceAt (files : Files) (place : Place) (path : Text) : Except Text Text :=
  (files.contentAt place).mapError fun fault => fault.describe "read" path

/-- Translates a file, or standard input, to standard output. -/
def translate (s : Settings) (w : World) (path : Option Text) : World × Option Failure :=
  let input : Except Failure (Text × Except Text Text) := match path with
    | none => .ok (stdinName, .ok w.input)
    | some path =>
      match w.files.locate path with
      | .error fault => .error (openFailure path fault)
      | .ok (place, _) => .ok (path, sourceAt w.files place path)
  match input with
  | .error failure => (w, some failure)
  | .ok (name, source) =>
    let t := translateInput s w.canceled name source w.output
    ({ w with output := t.sink }.log (leastLevel s) t.records, t.failure)

end SqlStubs.Command
