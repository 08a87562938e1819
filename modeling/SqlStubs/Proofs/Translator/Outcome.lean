import SqlStubs.Proofs.Translator.Rendering

/-!
# Strict and lenient, with and without a limit

Two comparisons of one run with another on the same source.

`translate_lenient`: a lenient translator goes on where a strict one stops.  Without an error they
do the same; with one, what the strict one wrote is the beginning of what the lenient one writes,
and the error at which the strict one stopped is the first that the lenient one leaves out.

`finish_output_limited`: a sink that refuses bytes beyond a limit ends up with the first bytes of
what a sink without a limit takes, and the loss of the others is always reported.
-/

namespace SqlStubs

namespace Translator

variable {o : TranslatorOptions} {types : ReturnTypes} {source : Text}

/-- The writer of a translation carries the rendering of the statements that are applied, whatever
the limit of its sink. -/
theorem translate_carries (limit : Option Nat) :
    ((Translator.new o { limit } types).translate source).1.writer.Carries limit
      (rendering o.withDefaults types []
        (applied o.lenient (Parser.items (Lexer.tokens source)))) :=
  run_carries (t := Translator.new o { limit } types) LineWriter.Carries.onSink

/-- A translator writes the rendering of the statements that it is to apply. -/
theorem output_flush_translate :
    ((Translator.new o {} types).translate source).1.flush.output =
      rendering o.withDefaults types [] (applied o.lenient (Parser.items (Lexer.tokens source))) :=
  (translate_carries none).output_flush_none

/-- Without a limit nothing fails to be written. -/
theorem not_failed_translate :
    ((Translator.new o {} types).translate source).1.writer.failed = false :=
  (translate_carries none).not_failed

/-! ### Strict and lenient -/

theorem countP_isFailure_eq_zero_iff {items : List Item} :
    items.countP (·.isFailure) = 0 ↔ firstError? items = none := by
  rw [List.countP_eq_zero, firstError?, List.findSome?_eq_none_iff]
  refine forall₂_congr fun item _ => ?_
  cases item <;> simp [Item.isFailure, Item.error?]

/-- A lenient translator never stops.  Where a strict one does not stop either, they do the same.
Where it does, what it wrote is the beginning of what the lenient one writes, and its error is the
first that is left out.  A lenient translator leaves out what cannot be read and nothing else, and
writes the rest. -/
theorem translate_lenient (o : TranslatorOptions) (types : ReturnTypes) (source : Text) :
    let items := Parser.items (Lexer.tokens source)
    let strict := (Translator.new { o with lenient := false } {} types).translate source
    let lenient := (Translator.new { o with lenient := true } {} types).translate source
    lenient.2 = none ∧
    (strict.2 = none → lenient.1.flush.output = strict.1.flush.output ∧
      lenient.1.types = strict.1.types ∧ lenient.1.skipped = 0) ∧
    (∀ failure, strict.2 = some failure →
      strict.1.flush.output <+: lenient.1.flush.output ∧ 1 ≤ lenient.1.skipped ∧
      lenient.1.leftOut.head? =
        some ⟨.warn, "skipping statement", [("error", .text failure.message)]⟩ ∧
      ∃ e, failure = .invalid o.filename e ∧ firstError? items = some e) ∧
    lenient.1.skipped = items.countP (·.isFailure) ∧
    lenient.1.flush.output = rendering o.withDefaults types [] (applied true items) := by
  intro items strict lenient
  have hstrictFailed : strict.1.writer.failed = false := not_failed_translate
  have hlenientFailed : lenient.1.writer.failed = false := not_failed_translate
  have hstrictOutput : strict.1.flush.output =
      rendering o.withDefaults types [] (applied false items) :=
    output_flush_translate.trans (rendering_lenient o.withDefaults false _)
  have hlenientOutput : lenient.1.flush.output =
      rendering o.withDefaults types [] (applied true items) :=
    output_flush_translate.trans (rendering_lenient o.withDefaults true _)
  have hstrict : strict.2 = (firstError? items).map (.invalid o.filename) := run_snd hstrictFailed
  obtain ⟨hskipped, hleftOut⟩ := @run_leftOut _ items rfl hlenientFailed
  replace hskipped : lenient.1.skipped = items.countP (·.isFailure) :=
    hskipped.trans (Nat.zero_add _)
  replace hleftOut : lenient.1.leftOut =
      (items.filterMap (·.error?)).map (leaveOutRecord o.filename) := hleftOut
  refine ⟨run_snd hlenientFailed, fun hnone => ?_, fun failure hsome => ?_, hskipped,
    hlenientOutput⟩
  · have herror : firstError? items = none := Option.map_eq_none_iff.1 (hstrict.symm.trans hnone)
    have happlied := applied_of_firstError?_eq_none herror
    refine ⟨?_, ?_, ?_⟩
    · rw [hlenientOutput, hstrictOutput, happlied]
    · have hlenientTypes : lenient.1.types =
          learnedAll o.withDefaults types (applied true items) := run_types hlenientFailed
      have hstrictTypes : strict.1.types =
          learnedAll o.withDefaults types (applied false items) := run_types hstrictFailed
      rw [hlenientTypes, hstrictTypes, happlied]
    · rw [hskipped, countP_isFailure_eq_zero_iff.2 herror]
  · obtain ⟨e, herror, rfl⟩ := Option.map_eq_some_iff.1 (hstrict.symm.trans hsome)
    refine ⟨?_, ?_, ?_, e, rfl, herror⟩
    · rw [hlenientOutput, hstrictOutput]
      exact rendering_prefix_of_prefix (applied_false_prefix_true items)
    · rw [hskipped, Nat.one_le_iff_ne_zero, Ne, countP_isFailure_eq_zero_iff, herror]
      simp
    · rw [hleftOut, List.head?_map, List.head?_filterMap]
      show (firstError? items).map _ = _
      rw [herror]
      rfl

/-! ### Sinks with a limit -/

/-- A sink with a limit ends up with the first bytes of what a sink without a limit takes.  If that
is not all of them, the end of the output reports it, and nothing is reported otherwise but what the
translation reports without a limit. -/
theorem finish_output_limited (o : TranslatorOptions) (types : ReturnTypes) (source : Text)
    (limit : Nat) :
    let unlimited := (Translator.new o {} types).translate source
    let limited := (Translator.new o { limit := some limit } types).translate source
    let full := unlimited.1.finish.output
    limited.1.finish.output = full.take limit ∧
      (limited.1.finish.failed = true ↔ limit < full.length) ∧
      (limited.2 = none ∧ limited.1.finish.failed = false ↔
        unlimited.2 = none ∧ full.length ≤ limit) := by
  intro unlimited limited full
  let text := rendering o.withDefaults types []
    (applied o.lenient (Parser.items (Lexer.tokens source)))
  have hunlimited : unlimited.1.writer.Carries none text := translate_carries none
  have hlimited : limited.1.writer.Carries (some limit) text := translate_carries (some limit)
  have hfull : full = text ++ [0x0A] := (hunlimited.write [0x0A]).output_flush_none
  have hfailed : limited.1.finish.failed = true ↔ limit < full.length := by
    rw [hfull]
    refine (hlimited.write [0x0A]).failed_flush.trans ?_
    simp
  -- a sink that stops the translation has been given more than its limit
  have hresult : full.length ≤ limit → limited.2 = unlimited.2 := by
    intro hle
    have hwriter : limited.1.writer.failed = false := by
      cases hbroken : limited.1.writer.failed with
      | false => rfl
      | true =>
        obtain ⟨_, ⟨⟩, hlt, -⟩ := hlimited.channel.cut hbroken
        rw [hfull, List.length_append] at hle
        omega
    exact (run_snd hwriter).trans (run_snd hunlimited.not_failed).symm
  refine ⟨?_, hfailed, ?_⟩
  · rw [hfull]
    exact (hlimited.write [0x0A]).output_flush
  · rw [← Bool.not_eq_true, hfailed, Nat.not_lt]
    exact and_congr_left fun hle => by rw [hresult hle]

end Translator

end SqlStubs
