import SqlStubs.Proofs.Lexer.Concatenation
import SqlStubs.Proofs.Lexer.Modes
import SqlStubs.Proofs.Parser.Recovery
import SqlStubs.Proofs.Translator.Emission

/-!
# Two sources are translated like one

`translate_append`: where a source ends with a semicolon or a line break, it can be translated by
itself and the source after it by another translator that knows the same return types.  The same
tokens are read, the same items are found and the same texts are emitted as for the two sources in
one.

The tokens are those of `Lexer.tokens_append`.  For the items every segment of the first source must
have an end of its own, since else it would go on in the second one (`closed_of_mem_segments`).  A
last line break is such an end only because it is a token only where no statement is open.
-/

namespace SqlStubs

namespace Lexer

/-- A comment or a line break comes first or after a token that leaves no statement open. -/
theorem isChain_toEnd (l : Lexer) :
    l.toEnd.1.pending.IsChain fun t u =>
      u.kind = .comment ∨ u.kind = .newline → t.kind.leavesBetween = true := by
  fun_induction Lexer.toEnd l with
  | case1 => exact .nil
  | case2 l step hne ts last heq ih =>
    rw [heq] at ih
    refine ih.cons fun u hu h => ?_
    obtain ⟨v, hv⟩ := List.head?_eq_some_iff.1 hu
    have hpending : step.2.toEnd.1.pending = u :: v := by rw [heq, hv]
    obtain ⟨rfl, -, -⟩ := next_of_toEnd hpending
    exact leavesBetween_of_next_next h

end Lexer

namespace Parser

variable {w : List Token} {t : Token}

/-! ### The segments of the first source -/

/-- In a statement without its semicolon there is neither a comment nor a line break. -/
theorem leavesBetween_of_isChain
    (hchain : (t :: w).IsChain fun t u =>
      u.kind = .comment ∨ u.kind = .newline → t.kind.leavesBetween = true)
    (ht : t.kind.leavesBetween = false) (hw : ∀ u ∈ w, u.kind ≠ .semicolon) :
    ∀ u ∈ t :: w, u.kind.leavesBetween = false := by
  induction w generalizing t with
  | nil => simpa using ht
  | cons u w ih =>
    rw [List.isChain_cons_cons] at hchain
    rw [List.forall_mem_cons] at hw
    have hu : u.kind.leavesBetween = false := by
      rw [← Bool.not_eq_true]
      intro hleaves
      have hkind : u.kind = .comment ∨ u.kind = .newline := by
        simpa [Kind.leavesBetween, hw.1] using hleaves
      rw [hchain.1 hkind] at ht
      cases ht
    rw [List.forall_mem_cons]
    exact ⟨ht, ih hchain.2 hu hw.2⟩

/-- All segments have ends of their own if the last token is a semicolon or a line break. -/
theorem closed_of_mem_segments (hw : ∀ t ∈ w, t.kind ≠ .eof)
    (hchain : w.IsChain fun t u =>
      u.kind = .comment ∨ u.kind = .newline → t.kind.leavesBetween = true)
    (hlast : ∀ t ∈ w.getLast?, t.kind.isBoundary = true) : ∀ seg ∈ segments w, Closed seg := by
  intro seg hseg
  fun_induction segments w with
  | case1 => cases hseg
  | case2 t w halone ih =>
    rw [List.forall_mem_cons] at hw
    rcases List.mem_cons.1 hseg with rfl | hseg
    · exact .inl ⟨t, rfl, halone⟩
    · refine ih hw.2 hchain.tail (fun u hu => hlast u ?_) hseg
      rw [List.getLast?_cons, Option.mem_def.1 hu]
      rfl
  | case3 t w halone ih =>
    rcases List.mem_cons.1 hseg with rfl | hseg
    · rcases throughSemicolon_cases hw with ⟨u, s, hus, hs, -⟩ | ⟨-, -, hends⟩
      · exact .inr ⟨s, by simp [hus], hs⟩
      · -- no semicolon ends this segment, and a line break cannot be its last token
        have hnone : ∀ u ∈ t :: w, u.kind ≠ .semicolon := fun u hu =>
          (Kind.endsStatement_eq_false.1 (hends u hu)).1
        have ht : t.kind.leavesBetween = false := by
          simpa [Kind.leavesBetween, Kind.standsAlone, hnone t (by simp)] using halone
        have hall := leavesBetween_of_isChain hchain ht fun u hu => hnone u (by simp [hu])
        have hmem := List.getLast_mem (List.cons_ne_nil t w)
        have hkind := Lexer.isBoundary_iff.1
          (hlast _ (List.getLast?_eq_some_getLast (List.cons_ne_nil t w)))
        have hfalse := hall _ hmem
        rcases hkind with h | h <;> rw [h] at hfalse <;> cases hfalse
    · have hsplit := throughSemicolon_append_afterSemicolon (t :: w)
      have hsuffix : afterSemicolon (t :: w) <:+ t :: w := ⟨_, hsplit⟩
      refine ih (fun r hr => hw r (hsuffix.subset hr)) (hchain.suffix hsuffix) ?_ hseg
      intro r hr
      refine hlast r ?_
      rw [← hsplit, List.getLast?_append, Option.mem_def.1 hr]
      rfl

/-- Items whose segments have ends of their own stay the same, whatever tokens come after. -/
theorem Run.items_prepend {stop : Location} {segs : List (List Token)} {items : List Item}
    (h : Run stop w segs items) (hclosed : ∀ seg ∈ segs, Closed seg) (tail : Tokens) :
    Parser.items (tail.prepend w) = items ++ Parser.items tail := by
  induction h with
  | nil => rfl
  | cons hne read _ _ ih =>
    rw [List.forall_mem_cons] at hclosed
    rw [← Tokens.prepend_prepend, Parser.items_prepend read hne (.inl hclosed.1), ih hclosed.2]
    rfl

/-- The items of two sources one after the other. -/
theorem items_append {a : Text} (ha : Lexer.endsAtBoundary a = true) (b : Text) :
    items (Lexer.tokens (a ++ b)) =
      items (Lexer.tokens a) ++ (items (Lexer.tokens b)).map (·.relocate (·.shift a)) := by
  obtain ⟨-, -, -, -, hlast⟩ := Lexer.reads_of_endsAtBoundary ha
  have hw := Lexer.kind_ne_eof_of_mem_toEnd (Lexer.ofText a)
  have hrun : Run (Lexer.tokens a).stop (Lexer.tokens a).pending
      (segments (Lexer.tokens a).pending) (items (Lexer.tokens a)) := run_items hw
  have hclosed := closed_of_mem_segments hw (Lexer.isChain_toEnd (Lexer.ofText a)) hlast
  rw [Lexer.tokens_append ha, hrun.items_prepend hclosed, items_relocate]

end Parser

namespace Translator

theorem applied_append (front rest : List Item) :
    applied true (front ++ rest) = applied true front ++ applied true rest := by
  induction front with
  | nil => rfl
  | cons item front ih =>
    cases item with
    | statement s => exact congrArg (s :: ·) ih
    | failure e => exact ih

/-- Two sources one after the other, where the first ends with a semicolon or a line break.  The
tokens and the items are those of the first source and then those of the second, moved on behind the
first.  A lenient translator emits for both what one emits for the first and then another one for
the second that knows the return types from the first, and knows the same return types in the
end. -/
theorem translate_append (o : TranslatorOptions) (types : ReturnTypes) (a b : Text)
    (ha : Lexer.endsAtBoundary a = true) (hlenient : o.lenient = true) :
    let first := ((Translator.new o {} types).translate a).1
    let second := ((Translator.new o {} first.types).translate b).1
    let whole := ((Translator.new o {} types).translate (a ++ b)).1
    Lexer.tokens (a ++ b) =
      ((Lexer.tokens b).relocate (·.shift a)).prepend (Lexer.tokens a).pending ∧
    Parser.items (Lexer.tokens (a ++ b)) =
      Parser.items (Lexer.tokens a) ++
        (Parser.items (Lexer.tokens b)).map (·.relocate (·.shift a)) ∧
    emission o types (a ++ b) = emission o types a ++ emission o first.types b ∧
    whole.types = second.types ∧
    Spaced (emission o types a) first.flush.output ∧
    Spaced (emission o first.types b) second.flush.output ∧
    Spaced (emission o types (a ++ b)) whole.flush.output := by
  intro first second whole
  have hitems := Parser.items_append ha b
  have hfirst := types_translate o types a
  have happlied : applied o.lenient (Parser.items (Lexer.tokens (a ++ b))) =
      applied o.lenient (Parser.items (Lexer.tokens a)) ++
        (applied o.lenient (Parser.items (Lexer.tokens b))).map (·.relocate (·.shift a)) := by
    rw [hitems, hlenient, applied_append, applied_relocate]
  refine ⟨Lexer.tokens_append ha b, hitems, ?_, ?_, spaced_translate o types a,
    spaced_translate o first.types b, spaced_translate o types (a ++ b)⟩
  · rw [emission, happlied, texts_append, texts_relocate, ← hfirst]
    rfl
  · have hwhole : whole.types = _ := types_translate o types (a ++ b)
    have hsecond : second.types = _ := types_translate o first.types b
    have hlearned : ∀ front rest : List Statement, learnedAll o.withDefaults types (front ++ rest) =
        learnedAll o.withDefaults (learnedAll o.withDefaults types front) rest :=
      fun _ _ => List.foldl_append
    rw [hwhole, happlied, hlearned, learnedAll_relocate, ← hfirst, hsecond]

/-- A semicolon ends an escape that is open, so the source after it begins between statements. -/
theorem translate_append_open_escape :
    let o : TranslatorOptions := { lenient := true }
    let a := Text.utf8 "CREATE FUNCTION f() RETURNS int;\nx /*+;"
    let b := Text.utf8 "CREATE AGGREGATE g(*)(SFUNC=f);"
    let out := ((Translator.new o {} {}).translate (a ++ b)).1.flush.output
    Lexer.endsAtBoundary a = true ∧
      Spaced [Text.utf8 "int f() \x7b \x7d;", Text.utf8 "@aggregate int g() \x7b \x7d;"] out := by
  intro o a b out
  have ha : Lexer.endsAtBoundary a = true := by decide +kernel
  obtain ⟨-, -, hemission, -, -, -, hspaced⟩ := translate_append o {} a b ha rfl
  have htexts : emission o {} a ++
      emission o ((Translator.new o {} {}).translate a).1.types b =
      [Text.utf8 "int f() \x7b \x7d;", Text.utf8 "@aggregate int g() \x7b \x7d;"] := by
    rw [types_translate]
    decide +kernel
  rw [hemission, htexts] at hspaced
  exact ⟨ha, hspaced⟩

end Translator

end SqlStubs
