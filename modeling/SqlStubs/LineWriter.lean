import SqlStubs.Text

/-!
# Writing in step with the source

A `Sink` takes bytes up to a limit.  A `Channel` collects bytes in a buffer of fixed size and hands
them to a sink when a byte finds the buffer full, or on request; after the first write that does not
fit it is closed.  A `LineWriter` counts the lines of what it writes, so that it can be moved on to
the line of the source from which the next piece comes.

The view of a channel is `Channel.held`, the bytes that reached the sink and those that wait in the
buffer.  What it is after a number of writes, and what has reached the sink once bytes were refused,
is followed by `Channel.Carries` in the proofs.
-/

namespace SqlStubs

/-! ### Sinks -/

/-- Something that takes bytes, up to a limit if it has one. -/
structure Sink where
  limit : Option Nat := none
  /-- The bytes taken so far. -/
  taken : Array UInt8 := #[]
deriving Repr, DecidableEq

namespace Sink

/-- The number of further bytes that a sink takes, if there is a bound. -/
def room (s : Sink) : Option Nat := s.limit.map (· - s.taken.size)

/-- Whether so many bytes fit. -/
def fits (s : Sink) (n : Nat) : Bool := s.room.all (n ≤ ·)

/-- The sink with as many of the bytes as fit. -/
def write (s : Sink) (bytes : Array UInt8) : Sink :=
  match s.room with
  | none => { s with taken := s.taken ++ bytes }
  | some room => { s with taken := s.taken ++ bytes.take room }

/-- A sink takes all that fits. -/
theorem write_of_fits {s : Sink} {bytes : Array UInt8} (h : s.fits bytes.size = true) :
    (s.write bytes).taken = s.taken ++ bytes := by
  unfold write
  unfold fits at h
  split
  · rfl
  · rename_i room hr
    simp only [hr, Option.all_some, decide_eq_true_eq] at h
    simp [Array.take, Array.extract_eq_self_of_le h]

end Sink

/-! ### Channels -/

/-- A buffer in front of a sink. -/
structure Channel where
  sink : Sink := {}
  buffer : Array UInt8 := #[]
  /-- Whether the sink has refused bytes.  Nothing reaches it after that. -/
  broken : Bool := false
deriving Repr, DecidableEq

namespace Channel

/-- The size of the buffer. -/
def capacity : Nat := 4096

/-- Hands the buffer to the sink. -/
def flush (c : Channel) : Channel :=
  if c.broken || c.buffer.isEmpty then c
  else ⟨c.sink.write c.buffer, #[], !c.sink.fits c.buffer.size⟩

/-- The channel with room for one more byte. -/
def makeRoom (c : Channel) : Channel := if c.buffer.size < capacity then c else c.flush

/-- Puts a byte into the buffer. -/
def put (c : Channel) (b : UInt8) : Channel :=
  if c.broken then c
  else
    let c := c.makeRoom
    -- the byte that met the full buffer is lost if the buffer could not be handed over
    if c.broken then c else { c with buffer := c.buffer.push b }

/-- Puts the bytes of a text into the buffer. -/
def write (c : Channel) (s : Text) : Channel := s.foldl put c

/-- The bytes that were put into a channel and not lost: those that reached the sink, and those that
wait in the buffer. -/
def held (c : Channel) : Text := c.sink.taken.toList ++ c.buffer.toList

/-- A channel that has lost bytes takes no more. -/
theorem put_of_broken {c : Channel} (h : c.broken = true) (b : UInt8) : c.put b = c := by
  simp [put, h]

theorem write_cons (c : Channel) (b : UInt8) (s : Text) :
    c.write (b :: s) = (c.put b).write s := rfl

/-- Once the sink has refused bytes, nothing changes any more. -/
theorem write_of_broken {c : Channel} (h : c.broken = true) (s : Text) : c.write s = c := by
  induction s with
  | nil => rfl
  | cons b s ih => rw [write_cons, put_of_broken h, ih]

end Channel

/-! ### Line writers -/

/-- A channel and the line that the next byte will be on. -/
structure LineWriter where
  channel : Channel := {}
  line : Nat := 1
deriving Repr, DecidableEq

namespace LineWriter

/-- A writer on a sink. -/
def onSink (sink : Sink) : LineWriter := { channel := { sink } }

/-- Whether a write has failed. -/
def failed (w : LineWriter) : Bool := w.channel.broken

/-- Writes a text and counts its lines.  A text that fails to be written counts none. -/
def write (w : LineWriter) (s : Text) : LineWriter :=
  let channel := w.channel.write s
  ⟨channel, if channel.broken then w.line else w.line + Text.newlines s⟩

/-- Writes one line break. -/
def newline (w : LineWriter) : LineWriter := w.write [0x0A]

/-- Writes so many line breaks, up to the first that fails. -/
def newlines : (count : Nat) → LineWriter → LineWriter
  | 0, w => w
  | count + 1, w => if w.failed then w else newlines count w.newline

/-- Writes line breaks until the writer is on a line; nothing if it is on or past it. -/
def advance (w : LineWriter) (line : Nat) : LineWriter := newlines (line - w.line) w

/-- Hands all that is buffered to the sink. -/
def flush (w : LineWriter) : LineWriter := { w with channel := w.channel.flush }

/-- The bytes that have reached the sink. -/
def output (w : LineWriter) : Text := w.channel.sink.taken.toList

end LineWriter

end SqlStubs
