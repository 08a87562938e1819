import Mathlib.Order.Bounds.Defs
import SqlStubs.Proofs.Grammar.ViablePrefix
import SqlStubs.Proofs.Parser.Recovery

/-!
# An error is at the first token that no statement can have there

`failure_at_first_impossible_token`: where a statement cannot be read, the error is at the first
token with which the tokens so far begin no statement.  The tokens before it can be completed, since
they begin a phrase of the grammar and every phrase is read as a statement.  With this token they
cannot, since the parser gives the same error whatever follows it.
-/

namespace SqlStubs

/-- All tokens, with the one at the end. -/
def Tokens.all (ts : Tokens) : List Token := ts.pending ++ [ts.eof]

theorem Tokens.all_prepend (ts : Tokens) (w : List Token) : (ts.prepend w).all = w ++ ts.all :=
  List.append_assoc ..

/-- The first of all tokens is the current one, be it the end. -/
theorem Tokens.exists_all_eq_cons (ts : Tokens) : ∃ w, ts.all = ts.current :: w := by
  obtain ⟨pending, stop⟩ := ts
  cases pending with
  | nil => exact ⟨[], rfl⟩
  | cons t pending => exact ⟨_, rfl⟩

/-- Tokens are left behind any of them but the end. -/
theorem Tokens.exists_eq_prepend {ts : Tokens} {v w : List Token} {t : Token}
    (h : ts.all = v ++ t :: w) : ∃ rest : Tokens, ts = rest.prepend v ∧ rest.current = t := by
  induction v generalizing ts with
  | nil =>
    obtain ⟨w', hw'⟩ := ts.exists_all_eq_cons
    rw [hw'] at h
    exact ⟨ts, rfl, (List.cons.inj h).1⟩
  | cons s v ih =>
    obtain ⟨pending, stop⟩ := ts
    cases pending with
    | nil =>
      -- the end is the last of all tokens, so none follows it
      have htail := (List.cons.inj h).2
      simp at htail
    | cons p pending =>
      obtain ⟨rfl, htail⟩ := List.cons.inj h
      obtain ⟨rest, hrest, hcurrent⟩ := @ih ⟨pending, stop⟩ htail
      refine ⟨rest, ?_, hcurrent⟩
      cases hrest
      rfl

/-- An error at a token comes from the lexer exactly if the token cannot be read. -/
theorem SyntaxCause.isLexical_atToken {t : Token} {cause : SyntaxCause}
    (hcause : cause.isLexical = false) :
    (atToken t cause).isLexical = true ↔ ∃ fault, t.kind = .illegal fault := by
  unfold atToken
  split
  · rename_i h
    exact ⟨fun _ => ⟨_, h⟩, fun _ => rfl⟩
  · rename_i what h
    exact ⟨fun _ => ⟨_, h⟩, fun _ => rfl⟩
  · rename_i hbyte hunclosed
    rw [hcause]
    refine ⟨nofun, ?_⟩
    rintro ⟨fault, hfault⟩
    cases fault with
    | byte => exact absurd hfault hbyte
    | unclosed what => exact absurd hfault (hunclosed what)

open SqlStubs.Parser

namespace Grammar

/-- Every phrase is read as the statement that it is, and nothing after it is read. -/
theorem statementBody_complete : Complete statementBody StatementPhrase fun _ => True := by
  intro w body rest h _
  rw [statementBody, current_bind]
  cases h with
  | empty h =>
    rw [Tokens.current_prepend_cons, h]
    rfl
  | comment h =>
    rw [Tokens.current_prepend_cons, h]
    rfl
  | newline h =>
    rw [Tokens.current_prepend_cons, h]
    rfl
  | declaration h =>
    have hread := @create_complete _ _ rest h trivial
    cases h with
    | intro words =>
      obtain ⟨t, v, rfl, ht⟩ := words.exists_cons
      rw [List.cons_append] at hread ⊢
      rw [Tokens.current_prepend_cons, ht]
      exact hread

end Grammar

namespace Parser

variable {ts rest : Tokens} {e : SyntaxError}

/-- These tokens are read as one statement, and none of them is left. -/
def IsStatement (u : List Token) : Prop :=
  ∃ stop s, next? ⟨u, stop⟩ = some (.statement s, ⟨[], stop⟩)

/-- Every phrase is read as a statement. -/
theorem isStatement_of_phrase {u : List Token} {body : StatementBody}
    (h : Grammar.StatementPhrase u body) : IsStatement u := by
  have hread := @Grammar.statementBody_complete u body ⟨[], {}⟩ h trivial
  rw [Tokens.prepend, List.append_nil] at hread
  obtain ⟨t, v, rfl, ht⟩ := h.exists_cons_ne_eof
  exact ⟨{}, _, next?_of_ok ht hread⟩

/-- Where a statement fails, the tokens before the error begin a phrase, and they fail in the same
way whatever follows the token at the error. -/
theorem exists_stops_of_failure (h : next? ts = some (.failure e, rest)) :
    ∃ v t w, ts.all = v ++ t :: w ∧ Grammar.ErrorAt e t ∧
      Grammar.Viable (Grammar.Phrases Grammar.StatementPhrase) v ∧
      ∀ us : Tokens, v ++ [t] <+: us.all → ∃ left, next? us = some (.failure e, left) := by
  have hne : ts.current.kind ≠ .eof := by
    intro heof
    rw [next?, if_pos heof] at h
    cases h
  rcases Grammar.statementBody_predictive ts with ⟨body, v, left, htakes⟩ | ⟨e', v, left, hstops⟩
  · -- the parser did not succeed
    have hrun := htakes.again left rfl
    rw [← htakes.eq] at hrun
    rw [next?_of_ok hne hrun] at h
    cases h
  · obtain ⟨left', hrun⟩ := hstops.again left rfl
    rw [← hstops.eq] at hrun
    rw [next?_of_error hne hrun] at h
    cases h
    obtain ⟨w, hw⟩ := left.exists_all_eq_cons
    refine ⟨v, left.current, w, ?_, hstops.error, hstops.viable, ?_⟩
    · rw [hstops.eq, Tokens.all_prepend, hw]
    · rintro us ⟨w', hus⟩
      rw [List.append_assoc] at hus
      -- any tokens that begin like this are `v` before tokens with the same first one
      obtain ⟨rest', rfl, hcurrent⟩ := Tokens.exists_eq_prepend hus.symm
      obtain ⟨left'', hrun'⟩ := hstops.again rest' hcurrent
      refine ⟨left'', next?_of_error ?_ hrun'⟩
      rwa [Grammar.current_prepend_eq hcurrent, ← hstops.eq]

/-- Where a statement cannot be read, the error is at the first token with which the tokens so far
begin no statement: every sequence that begins like this fails, and with the same error.  It is an
error of the lexer exactly if this token cannot be read, and then tells what is wrong with it. -/
theorem failure_at_first_impossible_token (h : next? ts = some (.failure e, rest)) :
    ∃ k t, ts.all[k]? = some t ∧ e.location = t.location ∧
      IsLeast {n | ∀ u, ts.all.take n <+: u → ¬IsStatement u} (k + 1) ∧
      (∀ us : Tokens, ts.all.take (k + 1) <+: us.all →
        ∃ left, next? us = some (.failure e, left)) ∧
      (e.cause.isLexical = true ↔ ∃ fault, t.kind = .illegal fault) ∧
      (∀ what, t.kind = .illegal (.unclosed what) → e.cause.message = what.message) ∧
      (t.kind = .illegal .byte →
        e.cause.message = Text.utf8 "illegal character " ++ Text.quoted t.text) := by
  obtain ⟨v, t, w, hall, herror, hviable, hfails⟩ := exists_stops_of_failure h
  obtain ⟨cause, hcause, hat⟩ := herror.cause
  -- up to the token at the error, which is one more than those before it
  have htake : ts.all.take (v.length + 1) = v ++ [t] := by
    rw [hall, List.take_length_add_append, List.take_succ_cons, List.take_zero]
  refine ⟨v.length, t, ?_, herror.location, ⟨fun u hu hstatement => ?_, fun n hn => ?_⟩, ?_, ?_, ?_,
    ?_⟩
  · rw [hall, List.getElem?_append_right (Nat.le_refl _), Nat.sub_self, List.getElem?_cons_zero]
  · -- no statement begins with these tokens, since all that begins with them fails
    obtain ⟨stop, s, hs⟩ := hstatement
    rw [htake] at hu
    obtain ⟨left, hleft⟩ := hfails ⟨u, stop⟩ (hu.trans (List.prefix_append ..))
    rw [hs] at hleft
    cases hleft
  · -- fewer tokens begin the phrase that the tokens before the error are completed to
    obtain ⟨u, body, hphrase⟩ := hviable
    refine Nat.lt_of_not_le fun hle => hn (v ++ u) ?_ (isStatement_of_phrase hphrase)
    rw [hall, List.take_append_of_le_length hle]
    exact (List.take_prefix n v).trans (List.prefix_append v u)
  · rwa [htake]
  · rw [hat]
    exact SyntaxCause.isLexical_atToken hcause
  · intro what hwhat
    rw [hat, SyntaxCause.atToken, hwhat]
    rfl
  · intro hbyte
    rw [hat, SyntaxCause.atToken, hbyte]
    rfl

/-- After `SETOF` a type has to follow, so the semicolon is the first token that cannot stand. -/
theorem failure_at_semicolon_after_setof :
    let ts := Lexer.tokens (Text.utf8 "CREATE FUNCTION f() RETURNS SETOF;")
    IsLeast {n | ∀ u, ts.all.take n <+: u → ¬IsStatement u} 8 := by
  intro ts
  let e : SyntaxError := ⟨⟨1, 34, 33⟩, .unexpected .semicolon (Text.utf8 ";") .type⟩
  have hfails : next? ts = some (.failure e, ⟨ts.pending.drop 7, ts.stop⟩) := by decide +kernel
  have hplace : ∀ k < ts.all.length, ∀ t ∈ ts.all[k]?, e.location = t.location → k = 7 := by
    decide +kernel
  obtain ⟨k, t, hk, hlocation, hleast, -⟩ := failure_at_first_impossible_token hfails
  obtain rfl := hplace k (List.getElem?_eq_some_iff.1 hk).1 t hk hlocation
  exact hleast

end Parser

end SqlStubs
