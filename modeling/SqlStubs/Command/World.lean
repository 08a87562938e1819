import SqlStubs.Command.Failure
import SqlStubs.Files
import SqlStubs.LineWriter
import SqlStubs.Log

/-!
# What a command works on

The files, the environment and the standard streams.  A command takes a world and leaves another.

Standard input is a text, so it can always be read to its end; only standard output and files can
fail.
-/

namespace SqlStubs.Command

/-- What a command works on. -/
structure World where
  files : Files := {}
  /-- The variables of the environment, with their values. -/
  environment : List (Text × Text) := []
  /-- What can be read from standard input. -/
  input : Text := []
  /-- Standard output. -/
  output : Sink := {}
  /-- What was written to standard error. -/
  messages : Text := []
  /-- Whether the command was cancelled before it began. -/
  canceled : Bool := false
deriving Repr, DecidableEq

namespace World

/-- The world after some log records, of which those below a level are not shown. -/
def log (w : World) (least : Level) (records : List LogRecord) : World :=
  { w with messages := w.messages ++ Log.lines least records }

/-- The world after writing to standard output, and whether all of it was taken. -/
def print (w : World) (s : Text) : World × Bool :=
  ({ w with output := w.output.write s.toArray }, w.output.fits s.length)

end World

end SqlStubs.Command
