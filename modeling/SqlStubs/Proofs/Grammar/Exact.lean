import SqlStubs.Proofs.Grammar.Completeness
import SqlStubs.Proofs.Parser.Recovery

/-!
# Exactly the sentences of the grammar are declarations

`next?_eq_statement_iff`: where the first token is `CREATE`, the statement that is read is a
declaration if and only if the tokens through the first semicolon are a sentence of the grammar, and
it is then the one that is read off the derivation.

Soundness and completeness speak of a sentence at the front of the tokens.  That it ends at the
first semicolon is not seen from the grammar here but from the parser: it stays within its
statement, so it cannot have taken a semicolon before its last one.
-/

namespace SqlStubs

open SqlStubs.Parser

namespace Grammar

variable {ts rest : Tokens}

/-- All tokens before the first that ends a statement, and the others. -/
theorem exists_prepend_of_endsStatement (ts : Tokens) :
    ∃ (w : List Token) (tail : Tokens), ts = tail.prepend w ∧
      tail.current.kind.endsStatement = true ∧ ∀ t ∈ w, t.kind.endsStatement = false := by
  obtain ⟨pending, stop⟩ := ts
  induction pending with
  | nil => exact ⟨[], ⟨[], stop⟩, rfl, rfl, by simp⟩
  | cons t pending ih =>
    by_cases ht : t.kind.endsStatement = true
    · exact ⟨[], ⟨t :: pending, stop⟩, rfl, ht, by simp⟩
    · obtain ⟨w, tail, heq, htail, hw⟩ := ih
      refine ⟨t :: w, tail, ?_, htail, ?_⟩
      · simpa [Tokens.prepend] using heq
      · rw [List.forall_mem_cons]
        exact ⟨by simpa using ht, hw⟩

theorem afterSemicolon_append {w v : List Token} {s : Token} (hs : s.kind = .semicolon)
    (hw : ∀ t ∈ w, t.kind.endsStatement = false) : afterSemicolon (w ++ s :: v) = v := by
  induction w with
  | nil => exact if_pos hs
  | cons t w ih =>
    rw [List.forall_mem_cons] at hw
    have ht : t.kind ≠ .semicolon := (Kind.endsStatement_eq_false.1 hw.1).1
    rw [List.cons_append, afterSemicolon, if_neg ht]
    exact ih hw.2

/-- A declaration that is read ends with the first semicolon. -/
theorem create_rest {body : StatementBody} (h : create ts = .ok body rest) :
    rest = ⟨afterSemicolon ts.pending, ts.stop⟩ := by
  obtain ⟨w, tail, rfl, htail, hw⟩ := exists_prepend_of_endsStatement ts
  rcases create_closes w tail.current htail hw with ⟨err, v, -, hrun⟩ | ⟨hsemi, body', hrun⟩
  · rw [hrun tail rfl] at h
    cases h
  · rw [hrun tail rfl] at h
    cases h
    obtain ⟨pending, stop⟩ := tail
    cases pending with
    | nil => cases hsemi
    | cons s pending =>
      have hs : s.kind = .semicolon := hsemi
      rw [Tokens.pending_prepend, afterSemicolon_append hs hw]
      rfl

/-- Where the first token is `CREATE`, exactly the sentences of the grammar are read as
declarations, each with the value that is read off its derivation. -/
theorem next?_eq_statement_iff (hcreate : ts.current.kind = .keyword .create) (s : Statement)
    (rest : Tokens) :
    next? ts = some (.statement s, rest) ↔
      Sentence (throughSemicolon ts.pending) s.body ∧ s.location = ts.current.location ∧
        rest = ⟨afterSemicolon ts.pending, ts.stop⟩ := by
  have hbody : statementBody ts = create ts := by
    rw [statementBody, current_bind, hcreate]
  have hwhole : Tokens.prepend (throughSemicolon ts.pending) ⟨afterSemicolon ts.pending, ts.stop⟩ =
      ts := by
    rw [Tokens.prepend, throughSemicolon_append_afterSemicolon]
  rw [next?, if_neg (by simp [hcreate]), hbody]
  constructor
  · intro h
    cases hrun : create ts with
    | error e mid =>
      rw [hrun] at h
      cases h
    | ok body mid =>
      rw [hrun] at h
      cases h
      obtain ⟨w, hts, hw⟩ := create_sound hrun
      have hrest := create_rest hrun
      refine ⟨?_, rfl, hrest⟩
      -- what was taken is all that stands before the tokens after the semicolon
      have hpending : throughSemicolon ts.pending ++ afterSemicolon ts.pending =
          w ++ afterSemicolon ts.pending := by
        have htaken := congrArg Tokens.pending hts
        rw [Tokens.pending_prepend, hrest] at htaken
        rw [throughSemicolon_append_afterSemicolon]
        exact htaken
      rw [List.append_cancel_right hpending]
      exact hw
  · rintro ⟨hsentence, hlocation, rfl⟩
    -- anything may follow the semicolon of a sentence
    have hrun : create (Tokens.prepend _ ⟨afterSemicolon ts.pending, ts.stop⟩) = _ :=
      create_complete hsentence trivial
    rw [hwhole] at hrun
    rw [hrun, ← hlocation]

/-- Words that could be read in two ways.  Before a name `in` is a mode, even if the name could be
one too; `double precision` is one type; `time` before a name is a name; and of two `SETOF` after
`RETURNS` the first is the mark of a set. -/
theorem sentence_ambiguous_words :
    let ts := Lexer.tokens (Text.utf8
      "CREATE FUNCTION f(in double precision, in out, time time = -1) RETURNS SETOF setof;")
    ts.current.kind = .keyword .create ∧ Sentence (throughSemicolon ts.pending)
      (.function {
        name := Text.utf8 "f"
        arguments := [
          { mode := .input, type := Text.utf8 "float8" },
          { mode := .input, type := Text.utf8 "out" },
          { name := Text.utf8 "time", type := Text.utf8 "time", default := Text.utf8 "-1" }]
        returns := some { setOf := true, type := Text.utf8 "setof" } }) := by
  intro ts
  have hcreate : ts.current.kind = .keyword .create := by decide +kernel
  refine ⟨hcreate, ?_⟩
  refine ((next?_eq_statement_iff hcreate ⟨ts.current.location, _⟩ ⟨[], ts.stop⟩).1 ?_).1
  decide +kernel

end Grammar

end SqlStubs
