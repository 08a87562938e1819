import SqlStubs.Proofs.Lexer.Truncation
import SqlStubs.Proofs.Parser.Recovery
import SqlStubs.Proofs.Parser.Relocation
import SqlStubs.Proofs.Translator.Outcome

/-!
# A strict translator stops as if the source ended there

`Translator.translate_truncated`: a translator that stops at a statement that cannot be read is left
in the state in which it would be if the source were cut off at the first token of that statement,
and then it would not have failed.  So nothing of the failed statement reaches the output or the
known return types.

The statements before the failed one have ends of their own, so what is read of them does not depend
on what comes after them (`Run.exists_failsAfter`), and none of their tokens changes if the source
ends where the failed statement begins (`Lexer.tokens_take`).
-/

namespace SqlStubs

namespace Parser

variable {w : List Token} {stop : Location}

/-- The first token of the first statement that cannot be read. -/
def firstFailing? (ts : Tokens) : Option Token :=
  match next? ts with
  | none => none
  | some (.failure _, _) => some ts.current
  | some (.statement _, rest) => if rest.size < ts.size then firstFailing? rest else none
termination_by ts.size

/-! ### The statements before the failed one -/

/-- After a segment with an end of its own no statement is open. -/
theorem leavesInside_of_mem_segments (hw : ∀ t ∈ w, t.kind ≠ .eof) {seg : List Token}
    (hseg : seg ∈ segments w) (hclosed : Closed seg) :
    ∀ t ∈ seg.getLast?, t.kind.leavesInside = false := by
  fun_induction segments w with
  | case1 => cases hseg
  | case2 t w halone ih =>
    rw [List.forall_mem_cons] at hw
    rcases List.mem_cons.1 hseg with rfl | hseg
    · have hkind : t.kind = .comment ∨ t.kind = .newline := by
        simpa [Kind.standsAlone] using halone
      simp only [List.getLast?_singleton, Option.mem_def, Option.some.injEq, forall_eq']
      rcases hkind with h | h <;> rw [h] <;> rfl
    · exact ih hw.2 hseg
  | case3 t w halone ih =>
    rcases List.mem_cons.1 hseg with rfl | hseg
    · rcases throughSemicolon_cases hw with ⟨u, s, hus, hs, -⟩ | ⟨hall, -, hends⟩
      · simp only [hus, List.getLast?_concat, Option.mem_def, Option.some.injEq, forall_eq', hs]
        rfl
      · rw [hall] at hclosed
        rcases hclosed with ⟨t', ht', halone'⟩ | ⟨t', ht', hsemi⟩
        · rw [(List.cons.inj ht').1] at halone
          exact absurd halone' halone
        · exact absurd hsemi (Kind.endsStatement_eq_false.1 (hends t' ht')).1
    · refine ih (fun r hr => hw r ?_) hseg
      rw [← throughSemicolon_append_afterSemicolon (t :: w)]
      exact List.mem_append_right _ hr

theorem next?_of_nextItem?_statement {ts rest : Tokens} {s : Statement}
    (h : nextItem? ts = some (.statement s, rest)) : next? ts = some (.statement s, rest) := by
  obtain ⟨⟨item, left⟩, hnext, heq⟩ := Option.map_eq_some_iff.1 h
  obtain ⟨rfl, rfl⟩ := Prod.mk.inj heq
  exact hnext

/-- The tokens `u` are read as the statements `front`, wherever the source ends after them, and the
statement that begins with `t` is the first that fails, with the error `e`. -/
structure FailsAfter (stop : Location) (front : List Statement) (e : SyntaxError)
    (u : List Token) (t : Token) (v : List Token) : Prop where
  first : firstFailing? ⟨u ++ t :: v, stop⟩ = some t
  fails : ∃ rest, next? ⟨t :: v, stop⟩ = some (.failure e, rest)
  items_eq : ∀ stop', items ⟨u, stop'⟩ = front.map .statement
  last : ∀ s ∈ u.getLast?, s.kind.leavesInside = false

theorem FailsAfter.nil {e : SyntaxError} {t : Token} {v : List Token} {rest : Tokens}
    (h : next? ⟨t :: v, stop⟩ = some (.failure e, rest)) : FailsAfter stop [] e [] t v where
  first := by
    rw [List.nil_append, firstFailing?, h]
    rfl
  fails := ⟨rest, h⟩
  items_eq stop' := by
    rw [items]
    rfl
  last := by simp

/-- One more statement before the failed one. -/
theorem FailsAfter.cons {seg u v : List Token} {t : Token} {s : Statement}
    {front : List Statement} {e : SyntaxError} (h : FailsAfter stop front e u t v)
    (hne : seg ≠ []) (hread : ReadsAs stop seg (.statement s)) (hclosed : Closed seg)
    (hlast : ∀ t ∈ seg.getLast?, t.kind.leavesInside = false) :
    FailsAfter stop (s :: front) e (seg ++ u) t v where
  first := by
    have hnext := next?_of_nextItem?_statement (hread.skip ⟨u ++ t :: v, stop⟩ (.inl hclosed))
    have hsize : (Tokens.mk (u ++ t :: v) stop).size <
        (Tokens.prepend seg ⟨u ++ t :: v, stop⟩).size := by
      have hpos := List.length_pos_iff.2 hne
      rw [Tokens.size_prepend]
      omega
    rw [List.append_assoc]
    show firstFailing? (Tokens.prepend seg ⟨u ++ t :: v, stop⟩) = _
    rw [firstFailing?, hnext]
    simp only [if_pos hsize, h.first]
  fails := h.fails
  items_eq stop' := by
    rw [List.map_cons, ← h.items_eq stop']
    show items (Tokens.prepend seg ⟨u, stop'⟩) = _
    exact items_prepend hread hne (.inl hclosed)
  last r hr := by
    rw [List.getLast?_append, Option.mem_def, Option.or_eq_some_iff] at hr
    rcases hr with hr | ⟨-, hr⟩
    · exact h.last r hr
    · exact hlast r hr

/-- If some statements and then an error are read, the tokens fall apart where the failed statement
begins. -/
theorem Run.exists_failsAfter {segs : List (List Token)} {front : List Statement}
    {e : SyntaxError} {others : List Item}
    (h : Run stop w segs (front.map .statement ++ .failure e :: others))
    (hsegs : ∀ seg ∈ segs, Closed seg → ∀ t ∈ seg.getLast?, t.kind.leavesInside = false) :
    ∃ u t v, w = u ++ t :: v ∧ FailsAfter stop front e u t v := by
  generalize hitems : front.map Item.statement ++ .failure e :: others = items at h
  induction h generalizing front with
  | nil => simp at hitems
  | @cons seg rest segs item items hne read closed run ih =>
    cases front with
    | nil =>
      obtain ⟨rfl, -⟩ := List.cons.inj hitems
      obtain ⟨t, seg, rfl⟩ := List.exists_cons_of_ne_nil hne
      obtain ⟨left, -, -, hnext⟩ := read.next
      have htail : Closed (t :: seg) ∨ Tokens.mk rest stop = ⟨[], stop⟩ :=
        closed.imp_right fun h => by rw [h]
      exact ⟨[], t, seg ++ rest, rfl, .nil (hnext ⟨rest, stop⟩ htail)⟩
    | cons s front =>
      obtain ⟨rfl, hothers⟩ := List.cons.inj hitems
      obtain ⟨u, t, v, rfl, hfails⟩ :=
        ih (fun seg hseg => hsegs seg (List.mem_cons_of_mem _ hseg)) hothers
      -- the failed statement comes after this one, so this one has an end of its own
      have hclosed : Closed seg := closed.resolve_right (by simp)
      refine ⟨seg ++ u, t, v, by rw [List.append_assoc], ?_⟩
      exact hfails.cons hne read hclosed (hsegs seg (by simp) hclosed)

end Parser

namespace Translator

variable {t : Translator} {items : List Item}

/-- Only a strict translator stops at an error, and then it has applied the statements before the
error and nothing else. -/
theorem run_eq_of_invalid {filename : Text} {e : SyntaxError}
    (h : (t.run items).2 = some (.invalid filename e)) :
    t.options.lenient = false ∧ ∃ (front : List Statement) (others : List Item),
      items = front.map .statement ++ .failure e :: others ∧
      t.run (front.map .statement) = ((t.run items).1, none) := by
  fun_induction Translator.run t items with
  | case1 t => cases h
  | case2 t e' rest hlenient ih =>
    have hstrict := (ih h).1
    rw [show (t.leaveOut e').options = t.options from rfl, hlenient] at hstrict
    cases hstrict
  | case3 t e' rest hstrict =>
    cases h
    exact ⟨by simpa using hstrict, [], rest, rfl, rfl⟩
  | case4 t s rest t' => cases h
  | case5 t s rest t' hok =>
    rename_i ih
    obtain ⟨hstrict, front, others, rfl, hrun⟩ := ih h
    refine ⟨by rwa [options_apply] at hstrict, s :: front, others, rfl, ?_⟩
    rw [List.map_cons, Translator.run, if_neg hok, hrun]

/-- If a translator stops at a statement that cannot be read, then on the source up to the first
token of this statement it does not fail and comes to the same state: the same output, the same
known return types, the same line.  The error is not before that token. -/
theorem translate_truncated (t : Translator) (source filename : Text) (e : SyntaxError)
    (h : (t.translate source).2 = some (.invalid filename e)) :
    ∃ first, Parser.firstFailing? (Lexer.tokens source) = some first ∧
      t.translate (source.take first.location.offset) = ((t.translate source).1, none) ∧
      first.location.offset ≤ e.location.offset := by
  obtain ⟨-, front, others, hitems, hrun⟩ := run_eq_of_invalid h
  obtain ⟨w, stop, htokens⟩ : ∃ w stop, Lexer.tokens source = ⟨w, stop⟩ := ⟨_, _, rfl⟩
  have hw : ∀ r ∈ w, r.kind ≠ .eof := by
    have hpending := Lexer.kind_ne_eof_of_mem_toEnd (Lexer.ofText source)
    rwa [show (Lexer.ofText source).toEnd.1 = ⟨w, stop⟩ from htokens] at hpending
  have hread : Parser.Run stop w (segments w) (front.map .statement ++ .failure e :: others) := by
    rw [← hitems, htokens]
    exact Parser.run_items hw
  obtain ⟨u, first, v, rfl, hfails⟩ :=
    hread.exists_failsAfter fun seg hseg => Parser.leavesInside_of_mem_segments hw hseg
  obtain ⟨hpending, hlater, hstop⟩ := Lexer.tokens_take htokens hfails.last
  refine ⟨first, by rw [htokens, hfails.first], ?_, ?_⟩
  · -- the tokens of the source that is cut off are those before the failed statement
    have hcut : Parser.items (Lexer.tokens (source.take first.location.offset)) =
        front.map .statement := by
      rw [← hfails.items_eq (Lexer.tokens (source.take first.location.offset)).stop, ← hpending]
    rw [translate, hcut, hrun]
    rfl
  · obtain ⟨rest, hfail⟩ := hfails.fails
    have hmem := Parser.location_of_failure hfail
    rcases List.mem_cons.1 hmem with heq | hmem
    · rw [heq]
      exact hstop
    · obtain ⟨r, hr, heq⟩ := List.mem_map.1 hmem
      rw [← heq]
      exact hlater r hr

/-- A string without its end is an error of the declaration that it stands in. -/
theorem translate_truncated_unclosed_string :
    let t := Translator.new {} {} {}
    let source := Text.utf8
      "CREATE FUNCTION f() RETURNS int; -- note\n CREATE FUNCTION g(a text = 'x;"
    (∃ e, (t.translate source).2 = some (.invalid [] e)) ∧
      t.translate (source.take 42) = ((t.translate source).1, none) ∧
      (t.translate source).1.flush.output = Text.utf8 "int f() \x7b \x7d;-- note\n" := by
  intro t source
  have herror : firstError? (Parser.items (Lexer.tokens source)) =
      some ⟨⟨2, 29, 69⟩, .unclosed .string⟩ := by
    decide +kernel
  have hfailed : (t.translate source).2 = some (.invalid [] ⟨⟨2, 29, 69⟩, .unclosed .string⟩) := by
    refine (run_snd not_failed_translate).trans ?_
    rw [herror]
    rfl
  have hfirst : (Parser.firstFailing? (Lexer.tokens source)).map (·.location.offset) = some 42 := by
    decide +kernel
  obtain ⟨first, heq, htruncated, -⟩ := translate_truncated t source _ _ hfailed
  rw [heq, Option.map_some, Option.some.injEq] at hfirst
  rw [hfirst] at htruncated
  refine ⟨⟨_, hfailed⟩, htruncated, output_flush_translate.trans ?_⟩
  decide +kernel

end Translator

end SqlStubs
