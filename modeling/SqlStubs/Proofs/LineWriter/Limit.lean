import SqlStubs.LineWriter

/-!
# A line writer on a sink that may have a limit

`Carries limit w out`: the writer `w` has been given the bytes `out`, on a sink with this limit.
While no write has failed, they are all in the sink or in the buffer.  Once one has failed, there
are more of them than the limit, and the sink holds those that the limit allows.  A failure is seen
late, when a full buffer is handed over, but then it does not matter how many bytes were given in
the meantime or are given later: the first bytes of `out` up to the limit stay the same.  So every
operation of a writer adds its bytes to `out`, whether it fails or not, and a flush brings out the
truth (`Carries.output_flush`, `Carries.failed_flush`).
-/

namespace SqlStubs

namespace Sink

variable {s : Sink}

@[simp] theorem limit_write (bytes : Array UInt8) : (s.write bytes).limit = s.limit := by
  unfold write
  split <;> rfl

/-- Bytes fit if they do not take the sink past its limit. -/
theorem fits_iff (size : Nat) (h : ∀ n ∈ s.limit, s.taken.size ≤ n) :
    s.fits size = true ↔ ∀ n ∈ s.limit, s.taken.size + size ≤ n := by
  cases hlimit : s.limit with
  | none => simp [fits, room, hlimit]
  | some n =>
    have hn := h n hlimit
    simp only [fits, room, hlimit, Option.map_some, Option.all_some, decide_eq_true_eq,
      Option.mem_def, Option.some.injEq, forall_eq']
    omega

/-- A sink takes the bytes that fit, which are the first ones up to its limit. -/
theorem taken_write_of_limit {n : Nat} {bytes : Array UInt8} (hlimit : s.limit = some n)
    (h : s.taken.size ≤ n) :
    (s.write bytes).taken.toList = (s.taken.toList ++ bytes.toList).take n := by
  have hroom : s.room = some (n - s.taken.size) := by
    rw [room, hlimit, Option.map_some]
  have hall : s.taken.toList.take n = s.taken.toList := List.take_of_length_le (by simpa using h)
  rw [write, hroom, List.take_append, hall, Array.length_toList]
  simp

end Sink

namespace Channel

/-- After a flush nothing waits in the buffer. -/
theorem buffer_flush {c : Channel} (h : c.broken = false) : c.flush.buffer = #[] := by
  unfold Channel.flush
  split
  · rename_i hc
    simpa [h] using hc
  · rfl

/-- A channel on a sink with this limit, if there is one, has been given the bytes `out`. -/
structure Carries (limit : Option Nat) (c : Channel) (out : Text) : Prop where
  limit_eq : c.sink.limit = limit
  taken_le : c.broken = false → ∀ n ∈ limit, c.sink.taken.size ≤ n
  held : c.broken = false → c.held = out
  cut : c.broken = true → ∃ n ∈ limit, n < out.length ∧ c.sink.taken.toList = out.take n

namespace Carries

variable {limit : Option Nat} {c : Channel} {out : Text}

theorem empty : Carries limit { sink := { limit } } [] where
  limit_eq := rfl
  taken_le _ _ _ := Nat.zero_le _
  held _ := rfl
  cut := nofun

/-- What is given to a channel after a failure is lost, like what was given before beyond the
limit. -/
theorem append_of_broken (h : c.Carries limit out) (hbroken : c.broken = true) (s : Text) :
    c.Carries limit (out ++ s) := by
  obtain ⟨n, hn, hlt, htaken⟩ := h.cut hbroken
  have hfalse : c.broken ≠ false := by simp [hbroken]
  refine ⟨h.limit_eq, fun hc => absurd hc hfalse, fun hc => absurd hc hfalse, fun _ => ?_⟩
  refine ⟨n, hn, ?_, ?_⟩
  · rw [List.length_append]
    omega
  · rw [htaken, List.take_append_of_le_length (Nat.le_of_lt hlt)]

/-- Handing over the buffer changes nothing of what was given. -/
theorem flush (h : c.Carries limit out) : c.flush.Carries limit out := by
  unfold Channel.flush
  split
  · exact h
  · rename_i hc
    have hbroken : c.broken = false := by
      cases hb : c.broken with
      | false => rfl
      | true => simp [hb] at hc
    have hout : c.sink.taken.toList ++ c.buffer.toList = out := h.held hbroken
    have htaken : ∀ n ∈ c.sink.limit, c.sink.taken.size ≤ n := by
      rw [h.limit_eq]
      exact h.taken_le hbroken
    have hfits := Sink.fits_iff c.buffer.size htaken
    have hall : ∀ hflushed : (!c.sink.fits c.buffer.size) = false,
        (c.sink.write c.buffer).taken = c.sink.taken ++ c.buffer := fun hflushed =>
      Sink.write_of_fits (by simpa using hflushed)
    refine ⟨?_, fun hflushed => ?_, fun hflushed => ?_, fun hfails => ?_⟩
    · rw [Sink.limit_write, h.limit_eq]
    · rw [hall hflushed, Array.size_append, ← h.limit_eq]
      exact hfits.1 (by simpa using hflushed)
    · rw [Channel.held, hall hflushed, ← hout]
      simp
    · have hnot : ¬c.sink.fits c.buffer.size = true := by simpa using hfails
      rw [hfits] at hnot
      obtain ⟨n, hn, hlt⟩ : ∃ n ∈ c.sink.limit, n < c.sink.taken.size + c.buffer.size := by
        simpa using hnot
      refine ⟨n, h.limit_eq ▸ hn, ?_, ?_⟩
      · rw [← hout, List.length_append, Array.length_toList, Array.length_toList]
        exact hlt
      · rw [Sink.taken_write_of_limit hn (htaken n hn), hout]

theorem makeRoom (h : c.Carries limit out) : c.makeRoom.Carries limit out := by
  unfold Channel.makeRoom
  split
  · exact h
  · exact h.flush

/-- A byte is added to what is carried, also if the buffer is full or the channel has failed. -/
theorem put (h : c.Carries limit out) (b : UInt8) : (c.put b).Carries limit (out ++ [b]) := by
  unfold Channel.put
  split
  · rename_i hbroken
    exact h.append_of_broken hbroken [b]
  · dsimp only
    split
    · rename_i hbroken
      exact h.makeRoom.append_of_broken hbroken [b]
    · rename_i hbroken
      have hheld : c.makeRoom.held = out := h.makeRoom.held (by simpa using hbroken)
      refine ⟨h.makeRoom.limit_eq, h.makeRoom.taken_le, fun _ => ?_, fun hb => absurd hb hbroken⟩
      rw [← hheld]
      simp [Channel.held]

/-- Writing adds the text to what was given. -/
theorem write (h : c.Carries limit out) (s : Text) : (c.write s).Carries limit (out ++ s) := by
  induction s generalizing c out with
  | nil => simpa [Channel.write] using h
  | cons b s ih =>
    have hrest := ih (h.put b)
    rwa [List.append_assoc, List.singleton_append, ← write_cons] at hrest

/-- After a flush that does not fail the sink has all bytes. -/
theorem taken_flush (h : c.Carries limit out) (hflush : c.flush.broken = false) :
    c.flush.sink.taken.toList = out := by
  have hbroken : c.broken = false := by
    cases hb : c.broken with
    | false => rfl
    | true => simp [Channel.flush, hb] at hflush
  have hheld := h.flush.held hflush
  rw [Channel.held, buffer_flush hbroken] at hheld
  simpa using hheld

end Carries

end Channel

namespace LineWriter

theorem advance_of_failed {w : LineWriter} (h : w.failed = true) (line : Nat) :
    w.advance line = w := by
  rw [LineWriter.advance]
  cases line - w.line with
  | zero => rfl
  | succ n => rw [LineWriter.newlines, if_pos h]

/-- A line writer on a sink with this limit, if there is one, has been given the bytes `out`. -/
structure Carries (limit : Option Nat) (w : LineWriter) (out : Text) : Prop where
  channel : w.channel.Carries limit out
  line : w.failed = false → w.line = 1 + Text.newlines out

namespace Carries

variable {limit : Option Nat} {w : LineWriter} {out : Text}

theorem onSink : Carries limit (LineWriter.onSink { limit }) [] := ⟨.empty, fun _ => rfl⟩

/-- A writer that has failed also carries any text that goes on from there, since none of it can
come out. -/
theorem append_of_failed (h : w.Carries limit out) (hfailed : w.failed = true) (s : Text) :
    w.Carries limit (out ++ s) :=
  ⟨h.channel.append_of_broken hfailed s, by simp [hfailed]⟩

theorem write (h : w.Carries limit out) (s : Text) : (w.write s).Carries limit (out ++ s) := by
  refine ⟨h.channel.write s, fun hfailed => ?_⟩
  have hbroken : (w.channel.write s).broken = false := hfailed
  have hbefore : w.failed = false := by
    cases hb : w.failed with
    | false => rfl
    | true =>
      rw [Channel.write_of_broken hb] at hbroken
      exact hb.symm.trans hbroken
  show (if (w.channel.write s).broken then w.line else w.line + Text.newlines s) = _
  rw [if_neg (by simp [hbroken]), h.line hbefore, Text.newlines_append]
  omega

/-- Line breaks are carried one by one. -/
theorem newlines (h : w.Carries limit out) (n : Nat) :
    (LineWriter.newlines n w).Carries limit (out ++ List.replicate n 0x0A) := by
  induction n generalizing w out with
  | zero => simpa [LineWriter.newlines] using h
  | succ n ih =>
    rw [LineWriter.newlines]
    split
    · rename_i hfailed
      exact h.append_of_failed hfailed _
    · have hrest := ih (h.write [0x0A])
      rwa [List.append_assoc, List.singleton_append, ← List.replicate_succ] at hrest

/-- The writer is moved on to a line by line breaks.  After a failure it is not moved at all, but
then it does not matter. -/
theorem advance (h : w.Carries limit out) (line : Nat) :
    (w.advance line).Carries limit
      (out ++ List.replicate (line - (1 + Text.newlines out)) 0x0A) := by
  cases hfailed : w.failed with
  | false =>
    rw [LineWriter.advance, ← h.line hfailed]
    exact h.newlines _
  | true =>
    rw [advance_of_failed hfailed]
    exact h.append_of_failed hfailed _

/-- A flush fails if more bytes were given than the limit allows, also if that was noticed
before. -/
theorem failed_flush (h : w.Carries limit out) :
    w.flush.failed = true ↔ ∃ n ∈ limit, n < out.length := by
  constructor
  · intro hfailed
    obtain ⟨n, hn, hlt, -⟩ := h.channel.flush.cut hfailed
    exact ⟨n, hn, hlt⟩
  · rintro ⟨n, hn, hlt⟩
    cases hfailed : w.flush.failed with
    | true => rfl
    | false =>
      have hle := h.channel.flush.taken_le hfailed n hn
      rw [← Array.length_toList, h.channel.taken_flush hfailed] at hle
      omega

/-- After a flush the sink has as many bytes as the limit allows. -/
theorem output_flush {n : Nat} (h : w.Carries (some n) out) : w.flush.output = out.take n := by
  cases hfailed : w.flush.failed with
  | true =>
    obtain ⟨_, ⟨⟩, -, htaken⟩ := h.channel.flush.cut hfailed
    exact htaken
  | false =>
    have hle : out.length ≤ n := by
      have hnot := mt h.failed_flush.2 (by simp [hfailed])
      simpa using hnot
    rw [List.take_of_length_le hle]
    exact h.channel.taken_flush hfailed

/-- Without a limit it has them all. -/
theorem output_flush_none (h : w.Carries none out) : w.flush.output = out := by
  refine h.channel.taken_flush ?_
  cases hbroken : w.channel.flush.broken with
  | false => rfl
  | true =>
    obtain ⟨n, hn, -⟩ := h.failed_flush.1 hbroken
    cases hn

/-- Without a limit nothing fails. -/
theorem not_failed (h : w.Carries none out) : w.failed = false := by
  cases hfailed : w.failed with
  | false => rfl
  | true =>
    obtain ⟨n, hn, -⟩ := h.channel.cut hfailed
    cases hn

end Carries

end LineWriter

end SqlStubs
