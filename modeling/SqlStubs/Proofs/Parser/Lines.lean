import SqlStubs.Proofs.Grammar.LineBreaks
import SqlStubs.Proofs.Grammar.Soundness
import SqlStubs.Proofs.Lexer.Lossless
import SqlStubs.Proofs.Parser.Recovery

/-!
# The lines of tokens and statements

A token begins on the line on which the bytes before it end, so the line of a token is at least that
of the token before it and the line breaks in that one (`LinesFrom`).  Since a statement writes no
more line breaks than its tokens have, the same holds of the statements of a source and the line
breaks that they write (`Fits`).  This is what an output needs that is to be in step with its
source: no statement is pushed off its line by those before it.
-/

namespace SqlStubs

/-! ### Tokens -/

/-- From `line` on, each token begins on the line where the bytes of the one before it end, or
later, and so does the end on the line `stop`. -/
inductive LinesFrom (stop : Nat) : (line : Nat) → List Token → Prop
  | nil {line : Nat} (h : line ≤ stop) : LinesFrom stop line []
  | cons {line : Nat} {t : Token} {w : List Token} (h : line ≤ t.location.line)
      (others : LinesFrom stop (t.location.line + Text.newlines t.text) w) :
      LinesFrom stop line (t :: w)

section LinesFrom

variable {stop line line' : Nat} {t : Token} {w v : List Token}

/-- From an earlier line on, the tokens are in step too. -/
theorem LinesFrom.mono (h : LinesFrom stop line w) (hle : line' ≤ line) :
    LinesFrom stop line' w := by
  cases h with
  | nil h => exact .nil (Nat.le_trans hle h)
  | cons h others => exact .cons (Nat.le_trans hle h) others

/-- After some tokens the line has grown by their line breaks at least. -/
theorem LinesFrom.of_append (h : LinesFrom stop line (w ++ v)) :
    LinesFrom stop (line + lineBreaks w) v := by
  induction w generalizing line with
  | nil => exact h
  | cons t w ih =>
    cases h with
    | cons h others =>
      refine (ih others).mono ?_
      rw [lineBreaks_cons]
      omega

/-- After a phrase the line has grown by the line breaks of its tokens, counted from its first. -/
theorem LinesFrom.of_cons_append (h : LinesFrom stop line (t :: w ++ v)) :
    line ≤ t.location.line ∧ LinesFrom stop (t.location.line + lineBreaks (t :: w)) v := by
  cases h with
  | cons h others =>
    refine ⟨h, ?_⟩
    rw [lineBreaks_cons, ← Nat.add_assoc]
    exact others.of_append

end LinesFrom

namespace Lexer

variable {source before : Text} {l : Lexer}

/-- The tokens that are left are in step from the line of what has been read. -/
theorem Reached.linesFrom_toEnd (h : Reached source before l) :
    LinesFrom l.toEnd.1.stop.line (1 + Text.newlines before) l.toEnd.1.pending := by
  fun_induction Lexer.toEnd l generalizing before with
  | case1 l step =>
    refine .nil ?_
    show _ ≤ l.next.1.location.line
    rw [h.next_line, Text.newlines_append]
    omega
  | case2 l step hne ts last heq =>
    rename_i ih
    have hothers := ih (h.next hne)
    -- the line after the token is its own and the line breaks in it
    rw [heq, Text.newlines_append, ← Nat.add_assoc, ← h.next_line] at hothers
    refine .cons ?_ hothers
    rw [h.next_line, Text.newlines_append]
    omega

/-- The end of a source is on its last line. -/
theorem Reached.stop_toEnd (h : Reached source before l) :
    l.toEnd.1.stop.line = 1 + Text.newlines source := by
  fun_induction Lexer.toEnd l generalizing before with
  | case1 l step =>
    rename_i heof
    have hrest : (skip l.mode l.rest).rest = [] := skip_rest_eq_nil heof
    have hwhole := whole_skip l.mode l.rest
    rw [Cut.whole, hrest, List.append_nil] at hwhole
    show l.next.1.location.line = _
    rw [h.next_line, h.source_eq, hwhole]
  | case2 l step hne ts last heq =>
    rename_i ih
    have hstop := ih (h.next hne)
    rw [heq] at hstop
    exact hstop

/-- What holds of the next token wherever the lexer has come to holds of all tokens. -/
theorem Reached.forall_toEnd {P : Token → Prop}
    (hP : ∀ {before l}, Reached source before l → l.next.1.kind ≠ .eof → P l.next.1)
    (h : Reached source before l) : ∀ t ∈ l.toEnd.1.pending, P t := by
  fun_induction Lexer.toEnd l generalizing before with
  | case1 => simp
  | case2 l step hne ts last heq =>
    rename_i ih
    have hothers := ih (h.next hne)
    rw [heq] at hothers
    rw [List.forall_mem_cons]
    exact ⟨hP h hne, hothers⟩

/-- A line break is the token of one line break. -/
theorem Reached.next_newline (hne : l.next.1.kind ≠ .eof) :
    l.next.1.kind = .newline → l.next.1.text = [0x0A] :=
  (sane_read (skip_rest_ne_nil hne)).newline

/-- A token is on the line of its place. -/
theorem Reached.next_line_offset (h : Reached source before l) (hne : l.next.1.kind ≠ .eof) :
    l.next.1.location.line = 1 + Text.newlines (source.take l.next.1.location.offset) := by
  have hsource := (h.next hne).source_eq
  rw [h.next_line, h.next_offset hne]
  conv => rhs; rw [hsource, List.append_assoc, List.take_left]

end Lexer

/-! ### Statements -/

/-- From `line` on, each statement begins on a line that those before it leave free, and the source
ends on the line `stop` or later. -/
inductive Fits (stop : Nat) : (line : Nat) → List Item → Prop
  | nil {line : Nat} (h : line ≤ stop) : Fits stop line []
  | failure {line : Nat} {e : SyntaxError} {items : List Item} (others : Fits stop line items) :
      Fits stop line (.failure e :: items)
  | statement {line : Nat} {s : Statement} {items : List Item} (h : line ≤ s.location.line)
      (others : Fits stop (s.location.line + s.body.weight) items) :
      Fits stop line (.statement s :: items)

/-- From an earlier line on, the statements fit too. -/
theorem Fits.mono {stop line line' : Nat} {items : List Item} (h : Fits stop line items)
    (hle : line' ≤ line) : Fits stop line' items := by
  induction h with
  | nil h => exact .nil (Nat.le_trans hle h)
  | failure _ ih => exact .failure (ih hle)
  | statement h others => exact .statement (Nat.le_trans hle h) others

/-- Statements that fit end on the last line or before it. -/
theorem Fits.line_le {stop line : Nat} {items : List Item} (h : Fits stop line items) :
    line ≤ stop := by
  induction h with
  | nil h => exact h
  | failure _ ih => exact ih
  | statement h _ ih => omega

namespace Grammar

theorem Sentence.ne_comment {w : List Token} {body : StatementBody} (h : Sentence w body)
    (text : Text) : body ≠ .comment text := by
  cases h with
  | intro _ h => cases h <;> simp

/-- A statement writes no more line breaks than its tokens have. -/
theorem StatementPhrase.weight_le {w : List Token} {body : StatementBody}
    (h : StatementPhrase w body) (hnewline : ∀ t ∈ w, t.kind = .newline → t.text = [0x0A]) :
    body.weight ≤ lineBreaks w := by
  cases h with
  | empty => exact Nat.zero_le _
  | @comment t => simp [StatementBody.weight]
  | @newline t h =>
    -- a line break writes itself
    rw [lineBreaks_cons, hnewline t (by simp) h]
    decide
  | declaration h => exact h.weight_le

end Grammar

namespace Parser

/-- A statement that is read begins with the first token, and its tokens are one phrase. -/
theorem next?_statement {ts rest : Tokens} {s : Statement}
    (h : next? ts = some (.statement s, rest)) :
    ∃ t w, ts = rest.prepend (t :: w) ∧ s.location = t.location ∧
      Grammar.StatementPhrase (t :: w) s.body := by
  unfold next? at h
  split at h
  · cases h
  · cases hbody : statementBody ts with
    | error e mid =>
      rw [hbody] at h
      cases h
    | ok body mid =>
      rw [hbody] at h
      cases h
      obtain ⟨w, rfl, hw⟩ := Grammar.statementBody_sound hbody
      obtain ⟨t, v, rfl, -⟩ := hw.exists_cons_ne_eof
      exact ⟨t, v, rfl, rfl, hw⟩

/-- A segment that is read as a statement is one phrase. -/
theorem ReadsAs.statementPhrase {stop : Location} {seg : List Token} {s : Statement}
    (h : ReadsAs stop seg (.statement s)) :
    ∃ t w, seg = t :: w ∧ s.location = t.location ∧ Grammar.StatementPhrase (t :: w) s.body := by
  obtain ⟨v, -, -, hnext⟩ := h.next
  have hread := hnext ⟨[], stop⟩ (.inr rfl)
  have hskip := h.skip ⟨[], stop⟩ (.inr rfl)
  rw [nextItem?, hread] at hskip
  -- nothing is skipped after a statement, so nothing of the segment was left
  have hleft : Tokens.prepend v ⟨[], stop⟩ = ⟨[], stop⟩ := by
    simpa [Item.isFailure] using hskip
  rw [hleft] at hread
  obtain ⟨t, w, hts, hlocation, hphrase⟩ := next?_statement hread
  have hseg := congrArg Tokens.pending hts
  simp only [Tokens.pending_prepend, List.append_nil] at hseg
  exact ⟨t, w, hseg, hlocation, hphrase⟩

/-- The statements of a source fit on their lines if its tokens do. -/
theorem Run.fits {stop : Location} {line : Nat} {w : List Token} {segs : List (List Token)}
    {items : List Item} (h : Run stop w segs items)
    (hnewline : ∀ t ∈ w, t.kind = .newline → t.text = [0x0A])
    (hlines : LinesFrom stop.line line w) : Fits stop.line line items := by
  induction h generalizing line with
  | nil =>
    cases hlines with
    | nil h => exact .nil h
  | @cons seg rest segs item items hne read closed others ih =>
    have hrest := fun r hr => hnewline r (List.mem_append_right seg hr)
    cases item with
    | failure e =>
      -- the lines of a segment that fails are left free
      exact .failure (ih hrest (hlines.of_append.mono (Nat.le_add_right ..)))
    | statement s =>
      obtain ⟨t, v, rfl, hlocation, hphrase⟩ := read.statementPhrase
      have hweight := hphrase.weight_le fun r hr => hnewline r (List.mem_append_left rest hr)
      obtain ⟨hline, hothers⟩ := hlines.of_cons_append
      rw [← hlocation] at hline hothers
      refine .statement hline ((ih hrest hothers).mono ?_)
      omega

/-- A statement begins at one of the tokens, and a comment is one of them. -/
theorem Run.exists_token {stop : Location} {w : List Token} {segs : List (List Token)}
    {items : List Item} {s : Statement} (h : Run stop w segs items) (hs : .statement s ∈ items) :
    ∃ t ∈ w, s.location = t.location ∧
      ∀ text, s.body = .comment text → t.kind = .comment ∧ t.text = text := by
  induction h with
  | nil => cases hs
  | @cons seg rest segs item items hne read closed others ih =>
    rcases List.mem_cons.1 hs with rfl | hs
    · obtain ⟨t, v, rfl, hlocation, hphrase⟩ := read.statementPhrase
      refine ⟨t, by simp, hlocation, fun text hbody => ?_⟩
      rw [hbody] at hphrase
      cases hphrase with
      | comment h => exact ⟨h, rfl⟩
      | declaration h => exact absurd rfl (h.ne_comment text)
    · obtain ⟨t, ht, hlocation, hcomment⟩ := ih hs
      exact ⟨t, List.mem_append_right seg ht, hlocation, hcomment⟩

/-- The statements of a source begin in the order of its tokens. -/
theorem Run.pairwise {R : Location → Location → Prop} {stop : Location} {w : List Token}
    {segs : List (List Token)} {items : List Item} (h : Run stop w segs items)
    (hw : w.Pairwise fun t u => R t.location u.location) :
    items.Pairwise fun i j =>
      ∀ s r, i = .statement s → j = .statement r → R s.location r.location := by
  induction h with
  | nil => exact .nil
  | @cons seg rest segs item items hne read closed others ih =>
    rw [List.pairwise_append] at hw
    refine .cons (fun j hj s r hs hr => ?_) (ih hw.2.1)
    subst hs hr
    obtain ⟨t, v, rfl, hlocation, -⟩ := read.statementPhrase
    obtain ⟨u, hu, hlocation', -⟩ := others.exists_token hj
    rw [hlocation, hlocation']
    exact hw.2.2 t (by simp) u hu

end Parser

end SqlStubs
