import SqlStubs.Command.Translate
import SqlStubs.Proofs.Translator.Outcome

/-!
# What becomes of one input

On a sink that takes everything, an input is translated unless it cannot be read, was cancelled, or
has an error that is not left out (`failure_translateInput_eq_none_iff`).  What reaches the sink is
then the translation and a line break (`taken_translateInput`).  The file name for diagnostics has
no part in either (`translateInput_filename`).
-/

namespace SqlStubs

namespace Translator

variable {o : TranslatorOptions} {source : Text}

/-- The file name for diagnostics has no influence on what is written for a statement. -/
theorem rendering_filename (o : TranslatorOptions) (filename : Text) (types : ReturnTypes)
    (out : Text) (statements : List Statement) :
    rendering { o with filename } types out statements = rendering o types out statements := by
  induction statements generalizing types out with
  | nil => rfl
  | cons s rest ih => exact ih (learned o types s) (out ++ written o types out s)

/-- Finishing adds a line break to the output and hands it all over. -/
theorem output_finish_translate :
    ((Translator.new o {} {}).translate source).1.finish.output =
      ((Translator.new o {} {}).translate source).1.flush.output ++ [0x0A] := by
  rw [output_flush_translate]
  exact ((translate_carries none).write [0x0A]).output_flush_none

/-- A sink that takes everything does not fail. -/
theorem not_failed_finish_translate :
    ((Translator.new o {} {}).translate source).1.finish.failed = false := by
  have hcarries := (@translate_carries o {} source none).write [0x0A]
  cases hfailed : ((Translator.new o {} {}).translate source).1.finish.failed with
  | false => rfl
  | true =>
    obtain ⟨limit, hlimit, -⟩ := hcarries.failed_flush.1 hfailed
    cases hlimit

end Translator

namespace Command

variable {s : Settings} {canceled : Bool} {name content : Text} {source : Except Text Text}

/-- Every failure to translate an input has the same status. -/
theorem status_translateInput {sink : Sink} {failure : Failure}
    (h : (translateInput s canceled name source sink).failure = some failure) :
    failure.status = some inputStatus := by
  unfold translateInput at h
  split at h
  · cases h
    rfl
  · dsimp only at h
    split at h
    · cases h
      rfl
    · split at h
      · cases h
        rfl
      · cases h

/-- An input that can be read and was not cancelled fails where its translation does, and otherwise
all output reaches the sink. -/
theorem translateInput_ok (s : Settings) (name content : Text) :
    let r := (Translator.new (s.translatorOptions name) {} {}).translate content
    let t := translateInput s false name (.ok content) {}
    t.failure = r.2.map (fun failure => .input failure.message) ∧
      (r.2 = none → t.sink.taken.toList = r.1.finish.output) := by
  have hfinish := @Translator.not_failed_finish_translate (s.translatorOptions name) content
  unfold translateInput Translator.translateUnless
  dsimp only
  rw [if_neg (by decide)]
  -- only the result of the translation and its writer matter from here on
  generalize (Translator.new (s.translatorOptions name) {} {}).translate content = r at hfinish ⊢
  obtain ⟨t, failure⟩ := r
  cases failure with
  | some failure => exact ⟨rfl, nofun⟩
  | none =>
    dsimp only at hfinish ⊢
    rw [hfinish, if_neg (by decide)]
    exact ⟨rfl, fun _ => rfl⟩

/-- An input is translated if it can be read, was not cancelled, and has no error but such that are
left out. -/
theorem failure_translateInput_eq_none_iff :
    (translateInput s canceled name source {}).failure = none ↔
      canceled = false ∧ ∃ content, source = .ok content ∧
        (s.lenient = true ∨ firstError? (Parser.items (Lexer.tokens content)) = none) := by
  cases source with
  | error reason => simp [translateInput]
  | ok content =>
    cases canceled with
    | true => simp [translateInput, Translator.translateUnless]
    | false =>
      have hresult : ((Translator.new (s.translatorOptions name) {} {}).translate content).2 =
          if s.lenient then none else (firstError? (Parser.items (Lexer.tokens content))).map
            (.invalid (s.translatorOptions name).filename) :=
        Translator.run_snd Translator.not_failed_translate
      rw [(translateInput_ok s name content).1, hresult]
      cases s.lenient <;> simp

/-- What reaches the sink is the translation and a line break. -/
theorem taken_translateInput
    (h : (translateInput s canceled name (.ok content) {}).failure = none) :
    (translateInput s canceled name (.ok content) {}).sink.taken.toList =
      ((Translator.new (s.translatorOptions name) {} {}).translate content).1.flush.output
        ++ [0x0A] := by
  obtain ⟨rfl, -⟩ := failure_translateInput_eq_none_iff.1 h
  obtain ⟨hfailure, htaken⟩ := translateInput_ok s name content
  rw [hfailure, Option.map_eq_none_iff] at h
  rw [htaken h, Translator.output_finish_translate]

/-- The file name for diagnostics has no influence on whether an input is translated, nor on what is
written for it. -/
theorem translateInput_filename (s : Settings) (filename : Text)
    (h : (translateInput { s with filename } canceled name (.ok content) {}).failure = none) :
    (translateInput s canceled name (.ok content) {}).failure = none ∧
      (translateInput { s with filename } canceled name (.ok content) {}).sink.taken.toList =
        (translateInput s canceled name (.ok content) {}).sink.taken.toList := by
  have hsame : (translateInput s canceled name (.ok content) {}).failure = none := by
    rw [failure_translateInput_eq_none_iff] at h ⊢
    exact h
  refine ⟨hsame, ?_⟩
  rw [taken_translateInput h, taken_translateInput hsame, Translator.output_flush_translate,
    Translator.output_flush_translate]
  congr 1
  exact Translator.rendering_filename (s.translatorOptions name).withDefaults _ {} [] _

end Command

end SqlStubs
