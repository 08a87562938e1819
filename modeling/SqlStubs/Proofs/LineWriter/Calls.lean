import SqlStubs.Proofs.LineWriter.Limit

/-!
# What a line writer holds after any calls

`run_calls`: whatever is asked of a writer, as long as nothing has failed, all that was written is
in the sink or in the buffer, and the line of the writer is that of the end of it.  The first call
that fails is the last that changes anything: the sink is full by then, with the first bytes of all
that was written and of what this call had to write.

What some calls write is said without a writer (`written`): to move on to a line is to write as many
line breaks as are missing in what was written before.  A writer carries what is written call by
call (`Carries.apply`), so the theorem is about any number of calls.  When the buffer is handed over
has no part in it; that it is handed over as buffers are described is `Channel.isBuffered`.
-/

namespace SqlStubs

/-! ### The buffer -/

namespace Channel

variable {c : Channel} {s : Text}

/-- The number of bytes for which there is room in the buffer. -/
def free (c : Channel) : Nat := capacity - c.buffer.size

/-- The channel with a text added to its buffer. -/
def hold (c : Channel) (s : Text) : Channel := { c with buffer := c.buffer ++ s.toArray }

theorem hold_hold (c : Channel) (s t : Text) : (c.hold s).hold t = c.hold (s ++ t) := by
  simp [hold, Array.append_assoc]

/-- What is held takes as much room as it is long. -/
theorem free_hold (c : Channel) (s : Text) : (c.hold s).free = c.free - s.length := by
  simp only [free, hold, Array.size_append, List.size_toArray]
  omega

/-- How a text is put into a buffer: if there is room for it, then it waits there; if it is longer,
then its first part fills the buffer, the buffer is handed over, and the rest is written after
that. -/
structure IsBuffered (c : Channel) : Prop where
  waits : ∀ s : Text, s.length ≤ c.free → c.write s = c.hold s
  fills : ∀ s : Text, c.free < s.length →
    c.write s = (c.hold (s.take c.free)).flush.write (s.drop c.free)

theorem put_of_free (hbroken : c.broken = false) (h : 0 < c.free) (b : UInt8) :
    c.put b = c.hold [b] := by
  have hroom : c.buffer.size < capacity := Nat.lt_of_sub_pos h
  simp [put, makeRoom, hroom, hbroken, hold]

/-- A byte that finds the buffer full is put into the buffer that has been handed over. -/
theorem put_of_full (hbroken : c.broken = false) (h : c.free = 0) (b : UInt8) :
    c.put b = c.flush.put b := by
  have hroom : c.makeRoom = c.flush := if_neg (Nat.not_lt.2 (Nat.le_of_sub_eq_zero h))
  cases hflush : c.flush.broken with
  | true => simp [put, hroom, hbroken, hflush]
  | false =>
    have hempty : 0 < c.flush.free := by
      rw [free, buffer_flush hbroken]
      decide
    rw [put_of_free hflush hempty]
    simp [put, hroom, hbroken, hflush, hold]

/-- A text for which there is room waits in the buffer. -/
theorem write_of_le (hbroken : c.broken = false) (h : s.length ≤ c.free) :
    c.write s = c.hold s := by
  induction s generalizing c with
  | nil => simp [write, hold]
  | cons b s ih =>
    rw [List.length_cons] at h
    have hheld : (c.hold [b]).broken = false := hbroken
    have hrest : s.length ≤ (c.hold [b]).free := by
      rw [free_hold, List.length_singleton]
      omega
    rw [write_cons, put_of_free hbroken (by omega), ih hheld hrest, hold_hold]
    rfl

/-- A text for which there is no room fills the buffer, which is then handed over before the rest of
the text is written. -/
theorem write_of_lt (hbroken : c.broken = false) (h : c.free < s.length) :
    c.write s = (c.hold (s.take c.free)).flush.write (s.drop c.free) := by
  have hsplit : c.write s = (c.write (s.take c.free)).write (s.drop c.free) := by
    have happend : (s.take c.free ++ s.drop c.free).foldl put c = _ := List.foldl_append
    rwa [List.take_append_drop] at happend
  have hheld : (c.hold (s.take c.free)).broken = false := hbroken
  have hfull : (c.hold (s.take c.free)).free = 0 := by
    rw [free_hold, List.length_take]
    omega
  -- the buffer is handed over by the first byte that finds it full, and there is one
  obtain ⟨b, t, ht⟩ : ∃ b t, s.drop c.free = b :: t := by
    refine List.exists_cons_of_ne_nil fun hnil => ?_
    rw [List.drop_eq_nil_iff] at hnil
    omega
  rw [hsplit, write_of_le hbroken (List.length_take_le _ _), ht, write_cons, write_cons,
    put_of_full hheld hfull]

theorem isBuffered (hbroken : c.broken = false) : c.IsBuffered :=
  ⟨fun _ => write_of_le hbroken, fun _ => write_of_lt hbroken⟩

end Channel

/-! ### Calls -/

namespace LineWriter

/-- What can be asked of a line writer. -/
inductive Call where
  /-- To move on to a line. -/
  | advance (line : Int)
  | write (s : Text)
  | newline
  /-- To hand over what is in the buffer. -/
  | flush
deriving Repr, DecidableEq

namespace Call

/-- The writer after a call. -/
def apply (w : LineWriter) : Call → LineWriter
  | advance line => w.advance line.toNat
  | write s => w.write s
  | newline => w.newline
  | flush => w.flush

/-- What a call has to write, after the bytes `out`. -/
def text (out : Text) : Call → Text
  | advance line => List.replicate (line.toNat - (1 + Text.newlines out)) 0x0A
  | write s => s
  | newline => [0x0A]
  | flush => []

end Call

/-- The writer after some calls. -/
def run (w : LineWriter) (calls : List Call) : LineWriter := calls.foldl Call.apply w

/-- The bytes `out`, and after them all that some calls write. -/
def writtenAfter (out : Text) (calls : List Call) : Text :=
  calls.foldl (fun out call => out ++ call.text out) out

/-- All that some calls write. -/
def written (calls : List Call) : Text := writtenAfter [] calls

section Failure

variable {w : LineWriter}

/-- After a failure no call changes anything. -/
theorem apply_of_failed (h : w.failed = true) (call : Call) : call.apply w = w := by
  have hbroken : w.channel.broken = true := h
  have hwrite : ∀ s, w.write s = w := by
    intro s
    rw [LineWriter.write, Channel.write_of_broken hbroken, hbroken]
    rfl
  cases call with
  | advance line => exact advance_of_failed h line.toNat
  | write s => exact hwrite s
  | newline => exact hwrite [0x0A]
  | flush =>
    show { w with channel := w.channel.flush } = w
    rw [Channel.flush, hbroken]
    rfl

/-- After a failure no calls change anything. -/
theorem run_of_failed (h : w.failed = true) (calls : List Call) : run w calls = w := by
  induction calls with
  | nil => rfl
  | cons call calls ih =>
    show run (call.apply w) calls = w
    rw [apply_of_failed h call]
    exact ih

/-- A call that does not fail was made when nothing had failed. -/
theorem not_failed_of_apply (call : Call) (h : (call.apply w).failed = false) :
    w.failed = false := by
  cases hfailed : w.failed with
  | false => rfl
  | true =>
    rw [apply_of_failed hfailed, hfailed] at h
    cases h

end Failure

namespace Carries

variable {limit : Option Nat} {w : LineWriter} {out : Text}

/-- A call adds what it writes to what a writer carries: the step of the invariant. -/
theorem apply (h : w.Carries limit out) (call : Call) :
    (call.apply w).Carries limit (out ++ call.text out) := by
  cases call with
  | advance line => exact h.advance line.toNat
  | write s => exact h.write s
  | newline => exact h.write [0x0A]
  | flush =>
    rw [Call.text, List.append_nil]
    exact ⟨h.channel.flush, fun hflush => h.line (not_failed_of_apply .flush hflush)⟩

/-- Whatever the calls, a writer carries what they write. -/
theorem run (h : w.Carries limit out) (calls : List Call) :
    (LineWriter.run w calls).Carries limit (writtenAfter out calls) := by
  induction calls generalizing w out with
  | nil => exact h
  | cons call calls ih => exact ih (h.apply call)

/-- Unless it fails, a writer that is moved on to a line is on it then, or stays where it was if it
was past it. -/
theorem line_advance (h : w.Carries limit out) {line : Nat}
    (hfailed : (w.advance line).failed = false) : (w.advance line).line = max w.line line := by
  have hbefore : w.line = 1 + Text.newlines out :=
    h.line (not_failed_of_apply (.advance line) hfailed)
  have hafter := (h.advance line).line hfailed
  have hcount : Text.newlines (List.replicate (line - (1 + Text.newlines out)) 0x0A) =
      line - (1 + Text.newlines out) := by
    rw [Text.newlines, List.count_replicate_self]
  rw [Text.newlines_append, hcount] at hafter
  omega

/-- A flush does not fail exactly if the sink then has all that was written. -/
theorem not_failed_flush_iff (h : w.Carries limit out) :
    w.flush.failed = false ↔ w.flush.output = out := by
  constructor
  · exact h.channel.taken_flush
  · intro houtput
    cases hfailed : w.flush.failed with
    | false => rfl
    | true =>
      obtain ⟨n, -, hlt, htaken⟩ := h.channel.flush.cut hfailed
      have htake : w.flush.output = out.take n := htaken
      have hlength := congrArg List.length (htake.symm.trans houtput)
      rw [List.length_take] at hlength
      omega

/-- When a call has failed, the sink has as many bytes as it takes, the first of all that were given
to the writer. -/
theorem output_of_failed (h : w.Carries limit out) (hfailed : w.failed = true) :
    ∃ n ∈ limit, w.output.length = n ∧ w.output <+: out := by
  obtain ⟨n, hn, hlt, htaken⟩ := h.channel.cut hfailed
  have houtput : w.output = out.take n := htaken
  refine ⟨n, hn, ?_, ?_⟩
  · rw [houtput, List.length_take]
    omega
  · rw [houtput]
    exact List.take_prefix n out

end Carries

/-- Whatever was asked of a new writer, if nothing has failed, then the sink and the buffer have all
that was written, and the writer is on the line where it ends.  The next text waits in the buffer or
fills it; to move on to a line brings the writer there, unless it is past it or fails; and a flush
fails unless it brings all that was written to the sink.  A call that fails leaves the sink full,
with the first bytes of all that was written and of what this call had to write, and no later call
changes anything. -/
theorem run_calls (limit : Option Nat) (calls : List Call)
    (hfailed : (run (onSink { limit }) calls).failed = false) :
    let w := run (onSink { limit }) calls
    let out := written calls
    w.channel.IsBuffered ∧
    w.output ++ w.channel.buffer.toList = out ∧
    w.line = 1 + Text.newlines out ∧
    (∀ line : Int, ((Call.advance line).apply w).failed = false →
      (((Call.advance line).apply w).line : Int) = max (w.line : Int) line) ∧
    (w.flush.failed = false ↔ w.flush.output = out) ∧
    ∀ call : Call, (call.apply w).failed = true →
      (∀ later, run (call.apply w) later = call.apply w) ∧
      ∃ n ∈ limit, (call.apply w).output.length = n ∧
        (call.apply w).output <+: out ++ call.text out := by
  intro w out
  have hcarries : w.Carries limit out := Carries.onSink.run calls
  refine ⟨Channel.isBuffered hfailed, hcarries.channel.held hfailed, hcarries.line hfailed,
    fun line hline => ?_, hcarries.not_failed_flush_iff, fun call hcall => ?_⟩
  · have hmax := hcarries.line_advance hline
    show ((w.advance line.toNat).line : Int) = _
    have hpos := hcarries.line hfailed
    omega
  · exact ⟨run_of_failed hcall, (hcarries.apply call).output_of_failed hcall⟩

/-- A failure is seen only when the buffer is handed over.  By then the line has moved on with bytes
for which there was no room. -/
theorem run_calls_full_sink :
    let w := run (onSink { limit := some 2 }) [.write (Text.utf8 "a\n"), .advance 4]
    let flushed := Call.flush.apply w
    w.failed = false ∧ w.line = 4 ∧ flushed.failed = true ∧
      (∀ later, run flushed later = flushed) ∧
      flushed.output.length = 2 ∧ flushed.output <+: Text.utf8 "a\n\n\n" := by
  intro w flushed
  have hfailed : w.failed = false := by decide +kernel
  have hflushed : flushed.failed = true := by decide +kernel
  have hwritten : written [.write (Text.utf8 "a\n"), .advance 4] = Text.utf8 "a\n\n\n" := by
    decide +kernel
  obtain ⟨-, -, hline, -, -, hfails⟩ := run_calls (some 2) _ hfailed
  obtain ⟨hstays, n, hn, hlength, hprefix⟩ := hfails .flush hflushed
  rw [hwritten] at hline hprefix
  refine ⟨hfailed, hline, hflushed, hstays, ?_, hprefix⟩
  rw [hlength]
  exact (Option.some.inj hn).symm

end LineWriter

end SqlStubs
