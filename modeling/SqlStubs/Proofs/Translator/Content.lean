import SqlStubs.Proofs.Translator.Emission

/-!
# The layout of a source does not matter

`translate_of_content_eq`: if two sources have the same tokens but for the places, then the same
items are found in them but for the places, and translators emit the same texts for them, leave out
as many statements and know the same return types in the end.  The outputs differ in line breaks
only.

The parser is a function of the tokens that does not look at places (`Parser.items_revise`), so all
that is left is what a listing of tokens does not show: the fault of what cannot be read, which its
literal tells (`kind_eq_of_content_eq`), and the text of a token that never ends, which no parser
looks at.
-/

namespace SqlStubs

/-- What a listing shows of a token but for its place: the number of its kind and its literal. -/
def Token.content (t : Token) : Nat × Text := (t.kind.number, t.literal)

/-! ### Kinds by number -/

/-- The kind that is found by the number of a kind.  All that cannot be read has one number. -/
def Kind.representative : Kind → Kind
  | .illegal _ => .illegal .byte
  | kind => kind

theorem Kind.ofNumber?_number (kind : Kind) :
    Kind.ofNumber? kind.number = some kind.representative := by
  cases kind with
  | keyword k => cases k <;> rfl
  | _ => rfl

/-- Kinds of one number are equal, or illegal for any two reasons. -/
theorem Kind.eq_or_illegal_of_number_eq {kind kind' : Kind} (h : kind.number = kind'.number) :
    kind = kind' ∨ ∃ fault fault', kind = .illegal fault ∧ kind' = .illegal fault' := by
  have hsame : kind.representative = kind'.representative := by
    have hnumber := Kind.ofNumber?_number kind
    rw [h, Kind.ofNumber?_number, Option.some.injEq] at hnumber
    exact hnumber.symm
  unfold Kind.representative at hsame
  split at hsame
  · split at hsame
    · exact .inr ⟨_, _, rfl, rfl⟩
    · rename_i hother
      exact absurd hsame.symm (hother _)
  · split at hsame
    · rename_i hother _ _
      exact absurd hsame (hother _)
    · exact .inl hsame

theorem Unclosed.message_injective {what what' : Unclosed} (h : what.message = what'.message) :
    what = what' := by
  cases what <;> cases what' <;> first | rfl | exact absurd h (by decide)

/-! ### Tokens by content -/

section Content

variable {t u : Token} {w v : List Token}

/-- A token that is a byte which begins nothing is one byte. -/
def Token.OneByte (t : Token) : Prop := t.kind = .illegal .byte → ∃ b, t.text = [b]

/-- No message of something that never ends could be mistaken for one byte. -/
theorem length_literal (ht : t.OneByte) {fault : Fault} (hfault : t.kind = .illegal fault) :
    t.literal.length = 1 ↔ fault = .byte := by
  unfold Token.literal
  cases fault with
  | byte =>
    obtain ⟨b, hb⟩ := ht hfault
    rw [hfault]
    simp [hb]
  | unclosed what =>
    have hlong : what.message.length ≠ 1 := by cases what <;> decide
    rw [hfault]
    simpa using hlong

/-- The number and the literal of a token tell its kind. -/
theorem kind_eq_of_content_eq (ht : t.OneByte) (hu : u.OneByte) (h : t.content = u.content) :
    t.kind = u.kind := by
  obtain ⟨hnumber, hliteral⟩ := Prod.mk.inj h
  rcases Kind.eq_or_illegal_of_number_eq hnumber with hkind | ⟨fault, fault', hfault, hfault'⟩
  · exact hkind
  · have hbyte : fault = .byte ↔ fault' = .byte := by
      rw [← length_literal ht hfault, ← length_literal hu hfault', hliteral]
    rw [hfault, hfault']
    cases fault with
    | byte => rw [hbyte.1 rfl]
    | unclosed what =>
      cases fault' with
      | byte => cases hbyte.2 rfl
      | unclosed what' =>
        have hmessage : what.message = what'.message := by
          simpa only [Token.literal, hfault, hfault'] using hliteral
        rw [Unclosed.message_injective hmessage]

/-- Without places and without the texts of tokens that never end, the content is all there is. -/
theorem revise_eq_of_content_eq (ht : t.OneByte) (hu : u.OneByte) (h : t.content = u.content) :
    t.revise (fun _ => {}) (fun _ => []) = u.revise (fun _ => {}) (fun _ => []) := by
  have hkind := kind_eq_of_content_eq ht hu h
  have hliteral : t.literal = u.literal := (Prod.mk.inj h).2
  unfold Token.revise
  cases hunclosed : u.kind.isUnclosed with
  | true => simp only [hkind, hunclosed, if_true]
  | false =>
    have htext : ∀ r : Token, r.kind = u.kind → r.literal = r.text := by
      intro r hr
      refine Lexer.literal_eq_text fun what hwhat => ?_
      rw [← hr, hwhat] at hunclosed
      cases hunclosed
    rw [htext t hkind, htext u rfl] at hliteral
    simp only [hkind, hunclosed, hliteral]

/-- Tokens with the same kinds and literals are equal once their places are forgotten.. -/
theorem map_revise_eq_of_content_eq (hw : ∀ t ∈ w, t.OneByte) (hv : ∀ t ∈ v, t.OneByte)
    (h : w.map (·.content) = v.map (·.content)) :
    w.map (·.revise (fun _ => {}) (fun _ => [])) =
      v.map (·.revise (fun _ => {}) (fun _ => [])) := by
  induction w generalizing v with
  | nil =>
    rw [List.map_eq_nil_iff.1 h.symm]
  | cons t w ih =>
    cases v with
    | nil => cases h
    | cons u v =>
      rw [List.map_cons, List.map_cons, List.cons.injEq] at h
      rw [List.forall_mem_cons] at hw hv
      rw [List.map_cons, List.map_cons, revise_eq_of_content_eq hw.1 hv.1 h.1, ih hw.2 hv.2 h.2]

end Content

theorem Lexer.oneByte_of_mem_tokens (source : Text) :
    ∀ t ∈ (tokens source).pending, t.OneByte :=
  (reached_ofText source).forall_toEnd fun _ hne => (sane_read (skip_rest_ne_nil hne)).byte

/-- The items of two sources with the same tokens but for the places, without their places. -/
theorem Parser.items_of_content_eq {s₁ s₂ : Text}
    (h : (Lexer.tokens s₁).pending.map (·.content) = (Lexer.tokens s₂).pending.map (·.content)) :
    (items (Lexer.tokens s₁)).map (·.relocate fun _ => {}) =
      (items (Lexer.tokens s₂)).map (·.relocate fun _ => {}) := by
  have hpending := map_revise_eq_of_content_eq (Lexer.oneByte_of_mem_tokens s₁)
    (Lexer.oneByte_of_mem_tokens s₂) h
  have htokens : (Lexer.tokens s₁).revise (fun _ => {}) (fun _ => []) =
      (Lexer.tokens s₂).revise (fun _ => {}) (fun _ => []) := by
    rw [Tokens.revise, hpending]
    rfl
  rw [← items_revise _ fun _ => [], ← items_revise _ fun _ => [], htokens]

namespace Translator

/-! ### The number of statements left out -/

theorem run_skipped_of_strict {t : Translator} {items : List Item}
    (hstrict : t.options.lenient = false) : (t.run items).1.skipped = t.skipped := by
  fun_induction Translator.run t items with
  | case1 t => rfl
  | case2 t e rest hlenient ih =>
    rw [hstrict] at hlenient
    cases hlenient
  | case3 t e rest _ => rfl
  | case4 t s rest t' => exact skipped_apply
  | case5 t s rest t' hok =>
    rename_i ih
    rw [ih (by rwa [options_apply]), skipped_apply]

/-- A lenient translator leaves out one statement for each error, and a strict one none. -/
theorem skipped_translate (o : TranslatorOptions) (types : ReturnTypes) (source : Text) :
    ((Translator.new o {} types).translate source).1.skipped =
      if o.lenient then (Parser.items (Lexer.tokens source)).countP (·.isFailure) else 0 := by
  let t := Translator.new o {} types
  by_cases hlenient : o.lenient = true
  · have hfailed : (t.translate source).1.writer.failed = false := not_failed_translate
    have hskipped : (t.translate source).1.skipped = 0 + _ := (run_leftOut hlenient hfailed).1
    rw [hskipped, if_pos hlenient, Nat.zero_add]
  · have hstrict : t.options.lenient = false := Bool.eq_false_iff.2 hlenient
    rw [if_neg hlenient]
    exact run_skipped_of_strict hstrict

/-! ### Two sources -/

/-- Two sources with the same tokens but for the places: the same kinds and literals, in the same
order.  Their items are the same but for the places, the error of a failed statement included.
Translators with the same options emit the same texts for them, leave out as many statements and
know the same return types, and each output is these texts and line breaks. -/
theorem translate_of_content_eq (o : TranslatorOptions) (types : ReturnTypes) (s₁ s₂ : Text)
    (h : (Lexer.tokens s₁).pending.map (·.content) = (Lexer.tokens s₂).pending.map (·.content)) :
    let run₁ := ((Translator.new o {} types).translate s₁).1
    let run₂ := ((Translator.new o {} types).translate s₂).1
    (Parser.items (Lexer.tokens s₁)).map (·.relocate fun _ => {}) =
      (Parser.items (Lexer.tokens s₂)).map (·.relocate fun _ => {}) ∧
    emission o types s₁ = emission o types s₂ ∧
    run₁.skipped = run₂.skipped ∧
    run₁.types = run₂.types ∧
    Spaced (emission o types s₁) run₁.flush.output ∧
    Spaced (emission o types s₁) run₂.flush.output := by
  intro run₁ run₂
  have hitems := Parser.items_of_content_eq h
  have happlied : (applied o.lenient (Parser.items (Lexer.tokens s₁))).map
        (·.relocate fun _ => {}) =
      (applied o.lenient (Parser.items (Lexer.tokens s₂))).map (·.relocate fun _ => {}) := by
    rw [← applied_relocate, hitems, applied_relocate]
  have hemission : emission o types s₁ = emission o types s₂ := by
    unfold emission
    rw [← texts_relocate (f := fun _ => {}), happlied, texts_relocate]
  have hcount : ∀ items : List Item,
      items.countP (·.isFailure) = (items.map (·.relocate fun _ => {})).countP (·.isFailure) := by
    intro items
    rw [List.countP_map]
    exact List.countP_congr fun item _ => by simp
  refine ⟨hitems, hemission, ?_, ?_, spaced_translate o types s₁, ?_⟩
  · have hskipped₁ : run₁.skipped = _ := skipped_translate o types s₁
    have hskipped₂ : run₂.skipped = _ := skipped_translate o types s₂
    rw [hskipped₁, hskipped₂, hcount, hitems, ← hcount]
  · have htypes₁ : run₁.types = _ := types_translate o types s₁
    have htypes₂ : run₂.types = _ := types_translate o types s₂
    rw [htypes₁, htypes₂, ← learnedAll_relocate (f := fun _ => {}), happlied, learnedAll_relocate]
  · rw [hemission]
    exact spaced_translate o types s₂

/-- Comments and line breaks within a statement do not matter, and neither does what follows the
apostrophe of a string that never ends. -/
theorem translate_of_content_eq_unclosed :
    let o : TranslatorOptions := { lenient := true }
    let s₁ := Text.utf8 "CREATE FUNCTION f(a int) RETURNS text; x 'a"
    let s₂ := Text.utf8 "CREATE/* */FUNCTION f -- name\n(a\nint) RETURNS text ;x '; b\n"
    let run₁ := ((Translator.new o {} {}).translate s₁).1
    let run₂ := ((Translator.new o {} {}).translate s₂).1
    (Lexer.tokens s₁).pending.map (·.content) = (Lexer.tokens s₂).pending.map (·.content) ∧
      Spaced [Text.utf8 "text f(int a) \x7b \x7d;"] run₂.flush.output ∧
      run₁.skipped = 1 ∧ run₂.skipped = 1 := by
  intro o s₁ s₂ run₁ run₂
  have hcontent : (Lexer.tokens s₁).pending.map (·.content) =
      (Lexer.tokens s₂).pending.map (·.content) := by
    decide +kernel
  obtain ⟨-, -, hskipped, -, -, hspaced⟩ := translate_of_content_eq o {} s₁ s₂ hcontent
  have htexts : emission o {} s₁ = [Text.utf8 "text f(int a) \x7b \x7d;"] := by decide +kernel
  have hone : run₁.skipped = 1 := by
    refine (skipped_translate o {} s₁).trans ?_
    decide +kernel
  rw [htexts] at hspaced
  exact ⟨hcontent, hspaced, hone, hskipped.symm.trans hone⟩

end Translator

end SqlStubs
