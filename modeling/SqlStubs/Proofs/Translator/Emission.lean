import SqlStubs.Proofs.Parser.Relocation
import SqlStubs.Proofs.Translator.Outcome

/-!
# The texts that a translator emits

`emission` is the comments and stubs that a translator writes for a source, in order and without
their places.  The output is these texts and line breaks, and nothing else (`spaced_translate`), so
two runs with the same emission differ in line breaks only.  The places of the statements have no
influence on it (`texts_relocate`), and it can be taken part by part, if the later part is given the
return types that the earlier one leaves (`texts_append`).
-/

namespace SqlStubs

/-- The statement at another place. -/
def Statement.relocate (f : Location → Location) (s : Statement) : Statement :=
  ⟨f s.location, s.body.relocate f⟩

namespace Translator

variable {o : TranslatorOptions} {types : ReturnTypes} {f : Location → Location}

/-! ### Texts and line breaks -/

/-- The comments and stubs for some statements. -/
def texts (o : TranslatorOptions) (types : ReturnTypes) (statements : List Statement) : List Text :=
  (pieces o types statements).map (·.2)

/-- The comments and stubs that a translator writes for a source. -/
def emission (o : TranslatorOptions) (types : ReturnTypes) (source : Text) : List Text :=
  texts o.withDefaults types (applied o.lenient (Parser.items (Lexer.tokens source)))

/-- These texts stand in the output one after the other, and else only line breaks. -/
inductive Spaced : List Text → (out : Text) → Prop
  | nil : Spaced [] []
  | newline {texts : List Text} {out : Text} (others : Spaced texts out) :
      Spaced texts (0x0A :: out)
  | text {s : Text} {texts : List Text} {out : Text} (others : Spaced texts out) :
      Spaced (s :: texts) (s ++ out)

/-- Line breaks may stand before texts that are spaced by line breaks. -/
theorem Spaced.newlines {texts : List Text} {out : Text} (h : Spaced texts out) (n : Nat) :
    Spaced texts (List.replicate n 0x0A ++ out) := by
  induction n with
  | zero => exact h
  | succ n ih => exact .newline ih

theorem texts_cons (s : Statement) (rest : List Statement) :
    texts o types (s :: rest) = (emitted o types s).toList ++ texts o (learned o types s) rest := by
  unfold texts
  rw [pieces, List.map_append]
  cases emitted o types s <;> rfl

/-- The texts of later statements depend on earlier ones by what these declare. -/
theorem texts_append (front rest : List Statement) :
    texts o types (front ++ rest) =
      texts o types front ++ texts o (learnedAll o types front) rest := by
  induction front generalizing types with
  | nil => rfl
  | cons s front ih =>
    rw [List.cons_append, texts_cons, texts_cons, ih, List.append_assoc]
    rfl

/-- What is written for a statement is its text after line breaks, or at most one line break. -/
theorem spaced_written {out more : Text} {s : Statement} {ss : List Text} (h : Spaced ss more) :
    Spaced ((emitted o types s).toList ++ ss) (written o types out s ++ more) := by
  unfold written
  cases emitted o types s with
  | some text =>
    dsimp only
    rw [List.append_assoc]
    exact (Spaced.text h).newlines _
  | none =>
    dsimp only
    split
    · exact .newline h
    · exact h

/-- What is rendered for some statements is their texts in order, spaced by line breaks. -/
theorem spaced_rendering (o : TranslatorOptions) (types : ReturnTypes) (out : Text)
    (statements : List Statement) :
    ∃ more, rendering o types out statements = out ++ more ∧
      Spaced (texts o types statements) more := by
  induction statements generalizing types out with
  | nil => exact ⟨[], (List.append_nil out).symm, .nil⟩
  | cons s rest ih =>
    obtain ⟨more, hmore, hspaced⟩ := ih (learned o types s) (out ++ written o types out s)
    refine ⟨written o types out s ++ more, ?_, ?_⟩
    · rw [rendering, hmore, List.append_assoc]
    · rw [texts_cons]
      exact spaced_written hspaced

/-- The output of a translator is its emission and line breaks. -/
theorem spaced_translate (o : TranslatorOptions) (types : ReturnTypes) (source : Text) :
    Spaced (emission o types source)
      ((Translator.new o {} types).translate source).1.flush.output := by
  obtain ⟨more, hmore, hspaced⟩ := spaced_rendering o.withDefaults types []
    (applied o.lenient (Parser.items (Lexer.tokens source)))
  rw [output_flush_translate, hmore]
  exact hspaced

/-- A translation leaves the return types that its statements declare. -/
theorem types_translate (o : TranslatorOptions) (types : ReturnTypes) (source : Text) :
    ((Translator.new o {} types).translate source).1.types =
      learnedAll o.withDefaults types (applied o.lenient (Parser.items (Lexer.tokens source))) :=
  run_types not_failed_translate

/-! ### Places -/

/-- The options of an aggregate suggest its type wherever they stand. -/
theorem type_relocate (d : AggregateDeclaration) : (d.relocate f).type types = d.type types := by
  have hhints : (d.options.map (·.relocate f)).map (TypeHint.ofOption types) =
      d.options.map (TypeHint.ofOption types) := by
    rw [List.map_map]
    rfl
  exact congrArg (fun hints => (TypeHint.decide hints).type) hhints

/-- What is written for a statement does not depend on its place. -/
theorem emitted_relocate (s : Statement) : emitted o types (s.relocate f) = emitted o types s := by
  obtain ⟨location, body⟩ := s
  cases body with
  | aggregate d =>
    show some (stub (_ ++ (d.relocate f).type types) _ _) = _
    rw [type_relocate]
    rfl
  | empty | comment | newline | function => rfl

theorem learned_relocate (s : Statement) : learned o types (s.relocate f) = learned o types s := by
  obtain ⟨location, body⟩ := s
  cases body <;> rfl

/-- Texts do not depend on the places of the statements, and neither do the known types. -/
theorem texts_relocate (statements : List Statement) :
    texts o types (statements.map (·.relocate f)) = texts o types statements := by
  induction statements generalizing types with
  | nil => rfl
  | cons s rest ih => rw [List.map_cons, texts_cons, texts_cons, emitted_relocate,
      learned_relocate, ih]

theorem learnedAll_relocate (statements : List Statement) :
    learnedAll o types (statements.map (·.relocate f)) = learnedAll o types statements := by
  induction statements generalizing types with
  | nil => rfl
  | cons s rest ih =>
    show learnedAll o (learned o types (s.relocate f)) _ = learnedAll o (learned o types s) rest
    rw [learned_relocate, ih]

theorem applied_relocate (lenient : Bool) (items : List Item) :
    applied lenient (items.map (·.relocate f)) = (applied lenient items).map (·.relocate f) := by
  induction items with
  | nil => rfl
  | cons item items ih =>
    cases item with
    | statement s => exact congrArg (s.relocate f :: ·) ih
    | failure e =>
      show (if lenient then applied lenient (items.map (·.relocate f)) else []) =
        (if lenient then applied lenient items else []).map (·.relocate f)
      split
      · exact ih
      · rfl

end Translator

end SqlStubs
