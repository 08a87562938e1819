import SqlStubs.Proofs.LineWriter.Limit

/-!
# A line writer on a sink without a limit

`Wrote w out`: the writer `w` stands before a sink that takes everything, has been given exactly the
bytes `out`, and is on the line where they end.  This is what it means to carry `out` without a
limit (`wrote_iff_carries`), so every operation of a line writer adds bytes to them, and flushing
brings them to the sink (`Wrote.output_flush`).
-/

namespace SqlStubs

/-- The sink takes everything and has refused nothing. -/
structure Channel.Open (c : Channel) : Prop where
  limit : c.sink.limit = none
  broken : c.broken = false

/-- A line writer on a sink without a limit has been given the bytes `out`. -/
structure Wrote (w : LineWriter) (out : Text) : Prop where
  isOpen : w.channel.Open
  held : w.channel.held = out
  line : w.line = 1 + Text.newlines out

theorem wrote_iff_carries {w : LineWriter} {out : Text} : Wrote w out ↔ w.Carries none out := by
  constructor
  · intro h
    have hbroken : w.channel.broken ≠ true := by simp [h.isOpen.broken]
    exact ⟨⟨h.isOpen.limit, fun _ _ => nofun, fun _ => h.held, fun hb => absurd hb hbroken⟩,
      fun _ => h.line⟩
  · intro h
    have hbroken : w.channel.broken = false := h.not_failed
    exact ⟨⟨h.channel.limit_eq, hbroken⟩, h.channel.held hbroken, h.line hbroken⟩

namespace Wrote

variable {w : LineWriter} {out : Text}

theorem onSink : Wrote (LineWriter.onSink {}) [] := wrote_iff_carries.2 .onSink

theorem not_failed (h : Wrote w out) : w.failed = false := h.isOpen.broken

theorem write (h : Wrote w out) (s : Text) : Wrote (w.write s) (out ++ s) :=
  wrote_iff_carries.2 ((wrote_iff_carries.1 h).write s)

/-- The writer is moved on to a line by line breaks. -/
theorem advance (h : Wrote w out) (line : Nat) :
    Wrote (w.advance line) (out ++ List.replicate (line - (1 + Text.newlines out)) 0x0A) :=
  wrote_iff_carries.2 ((wrote_iff_carries.1 h).advance line)

/-- After a flush the sink has all bytes. -/
theorem output_flush (h : Wrote w out) : w.flush.output = out :=
  (wrote_iff_carries.1 h).output_flush_none

end Wrote

end SqlStubs
