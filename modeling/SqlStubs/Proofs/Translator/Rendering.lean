import SqlStubs.Proofs.LineWriter.Limit
import SqlStubs.Proofs.Translator.Layout

/-!
# What a run of a translator comes to

A translator works on a buffer before a sink that may refuse bytes.  Here its run is compared with
functions of the items alone: `rendering` is the text that is to be written for some statements,
`learnedAll` the return types that are known after them, and `firstError?` the error at which a
strict translator stops.  A run gives its writer the rendering of the statements that it is to apply
(`run_carries`), also if the writer fails on the way, since what comes after the failure is lost in
any case.  If the writer has not failed, then all of the items have been gone through, and the rest
of the outcome is as the items say (`run_snd`, `run_types`, `run_leftOut`).
-/

namespace SqlStubs

/-- The error of an item, if it is one. -/
def Item.error? : Item → Option SyntaxError
  | .statement _ => none
  | .failure e => some e

/-- The first error among some items. -/
def firstError? (items : List Item) : Option SyntaxError := items.findSome? Item.error?

@[simp] theorem firstError?_nil : firstError? [] = none := rfl

@[simp] theorem firstError?_statement_cons (s : Statement) (items : List Item) :
    firstError? (.statement s :: items) = firstError? items := rfl

@[simp] theorem firstError?_failure_cons (e : SyntaxError) (items : List Item) :
    firstError? (.failure e :: items) = some e := rfl

namespace Translator

variable {o : TranslatorOptions} {types : ReturnTypes} {out : Text} {s : Statement}

/-! ### Statements as text -/

/-- What is written for a statement after the output `out`: line breaks up to the line of the
statement and then its text, or at most one line break. -/
def written (o : TranslatorOptions) (types : ReturnTypes) (out : Text) (s : Statement) : Text :=
  match emitted o types s with
  | some text => List.replicate (s.location.line - (1 + Text.newlines out)) 0x0A ++ text
  | none => if s.body = .newline then [0x0A] else []

/-- The return types that are known after some statements. -/
def learnedAll (o : TranslatorOptions) (types : ReturnTypes) (statements : List Statement) :
    ReturnTypes :=
  statements.foldl (learned o) types

/-- The output `out` and after it all that is written for some statements. -/
def rendering (o : TranslatorOptions) : ReturnTypes → (out : Text) → List Statement → Text
  | _, out, [] => out
  | types, out, s :: rest => rendering o (learned o types s) (out ++ written o types out s) rest

/-- Statements are rendered one after the other, with the return types that are known by then. -/
theorem rendering_append (front rest : List Statement) :
    rendering o types out (front ++ rest) =
      rendering o (learnedAll o types front) (rendering o types out front) rest := by
  induction front generalizing types out with
  | nil => rfl
  | cons s front ih => exact ih

/-- The output grows at its end only. -/
theorem exists_rendering_eq_append (o : TranslatorOptions) (types : ReturnTypes) (out : Text)
    (statements : List Statement) : ∃ more, rendering o types out statements = out ++ more := by
  induction statements generalizing types out with
  | nil => exact ⟨[], (List.append_nil out).symm⟩
  | cons s rest ih =>
    obtain ⟨more, hmore⟩ := ih (learned o types s) (out ++ written o types out s)
    exact ⟨written o types out s ++ more, by rw [rendering, hmore, List.append_assoc]⟩

theorem rendering_prefix_of_prefix {front statements : List Statement} (h : front <+: statements) :
    rendering o types out front <+: rendering o types out statements := by
  obtain ⟨rest, rfl⟩ := h
  obtain ⟨more, hmore⟩ := exists_rendering_eq_append o (learnedAll o types front)
    (rendering o types out front) rest
  exact ⟨more, by rw [rendering_append, hmore]⟩

/-- How errors are dealt with has no influence on what is written for a statement. -/
theorem rendering_lenient (o : TranslatorOptions) (lenient : Bool) (statements : List Statement) :
    rendering { o with lenient } types out statements = rendering o types out statements := by
  induction statements generalizing types out with
  | nil => rfl
  | cons s rest ih => exact ih

/-! ### The statements that are applied -/

/-- The statements before the first error come first among those that can be read. -/
theorem applied_false_prefix_true (items : List Item) :
    applied false items <+: applied true items := by
  induction items with
  | nil => exact List.prefix_rfl
  | cons item items ih =>
    cases item with
    | statement s => exact (List.prefix_cons_inj s).2 ih
    | failure e => exact List.nil_prefix

/-- Without an error both kinds of translators apply all statements. -/
theorem applied_of_firstError?_eq_none {items : List Item} (h : firstError? items = none) :
    applied false items = applied true items := by
  induction items with
  | nil => rfl
  | cons item items ih =>
    cases item with
    | statement s => rw [applied, applied, ih h]
    | failure e => cases h

/-! ### A run -/

section Run

variable {t : Translator} {limit : Option Nat} {items : List Item}

/-- A statement adds what is written for it to what the writer carries. -/
theorem apply_carries (h : t.writer.Carries limit out) :
    (t.apply s).writer.Carries limit (out ++ written t.options t.types out s) := by
  unfold written
  cases hemitted : emitted t.options t.types s with
  | some text =>
    rw [writer_apply_of_some hemitted, ← List.append_assoc]
    exact (h.advance s.location.line).write text
  | none =>
    rw [writer_apply_of_none hemitted]
    dsimp only
    split
    · exact h.write [0x0A]
    · rwa [List.append_nil]

/-- A run gives its writer the rendering of the statements that it is to apply. -/
theorem run_carries (h : t.writer.Carries limit out) :
    (t.run items).1.writer.Carries limit
      (rendering t.options t.types out (applied t.options.lenient items)) := by
  fun_induction Translator.run t items generalizing out with
  | case1 t => exact h
  | case2 t e rest hlenient ih =>
    have happlied : applied t.options.lenient (.failure e :: rest) =
        applied t.options.lenient rest := if_pos hlenient
    rw [happlied]
    exact ih h
  | case3 t e rest hstrict =>
    have happlied : applied t.options.lenient (.failure e :: rest) = [] := if_neg hstrict
    rw [happlied]
    exact h
  | case4 t s rest t' =>
    rename_i hfailed
    -- the run stops, and what was still to be written comes after the bytes that fit
    obtain ⟨more, hmore⟩ := exists_rendering_eq_append t.options (learned t.options t.types s)
      (out ++ written t.options t.types out s) (applied t.options.lenient rest)
    rw [applied, rendering, hmore]
    exact (apply_carries h).append_of_failed hfailed more
  | case5 t s rest t' hok =>
    rename_i ih
    have hrest := ih (apply_carries h)
    rwa [options_apply, types_apply] at hrest

/-- If the writer has not failed, then it is known which error ended the run, if any did. -/
theorem run_snd (h : (t.run items).1.writer.failed = false) :
    (t.run items).2 = if t.options.lenient then none
      else (firstError? items).map (.invalid t.options.filename) := by
  fun_induction Translator.run t items with
  | case1 t => simp
  | case2 t e rest hlenient ih =>
    rw [ih h]
    show (if t.options.lenient then none else _) = _
    rw [if_pos hlenient, if_pos hlenient]
  | case3 t e rest hstrict => rw [if_neg hstrict, firstError?_failure_cons, Option.map_some]
  | case4 t s rest t' =>
    rename_i hfailed
    exact absurd hfailed (by simpa using h)
  | case5 t s rest t' hok =>
    rename_i ih
    rw [ih h, options_apply, firstError?_statement_cons]

/-- If the writer has not failed, then what is known is what the applied statements declare. -/
theorem run_types (h : (t.run items).1.writer.failed = false) :
    (t.run items).1.types =
      learnedAll t.options t.types (applied t.options.lenient items) := by
  fun_induction Translator.run t items with
  | case1 t => rfl
  | case2 t e rest hlenient ih =>
    have happlied : applied t.options.lenient (.failure e :: rest) =
        applied t.options.lenient rest := if_pos hlenient
    rw [happlied]
    exact ih h
  | case3 t e rest hstrict =>
    have happlied : applied t.options.lenient (.failure e :: rest) = [] := if_neg hstrict
    rw [happlied]
    rfl
  | case4 t s rest t' =>
    rename_i hfailed
    exact absurd hfailed (by simpa using h)
  | case5 t s rest t' hok =>
    rename_i ih
    rw [ih h, options_apply, types_apply]
    rfl

end Run

/-! ### What is left out -/

/-- The records of statements that were left out, in order. -/
def leftOut (t : Translator) : List LogRecord :=
  t.records.filter fun r => r.message = "skipping statement"

/-- The record of a statement that was left out. -/
def leaveOutRecord (filename : Text) (e : SyntaxError) : LogRecord :=
  ⟨.warn, "skipping statement", [("error", .text (e.text filename))]⟩

section LeftOut

variable {t : Translator} {items : List Item}

@[simp] theorem skipped_apply : (t.apply s).skipped = t.skipped := by
  unfold Translator.apply
  split <;> rfl

/-- The records that are added for a statement tell of something else. -/
@[simp] theorem leftOut_apply : (t.apply s).leftOut = t.leftOut := by
  unfold Translator.apply
  split <;>
    simp [leftOut, records, comment, function, aggregate, record, emit]

theorem leftOut_leaveOut (e : SyntaxError) :
    (t.leaveOut e).leftOut = t.leftOut ++ [leaveOutRecord t.options.filename e] := by
  simp [leftOut, records, leaveOut, record, leaveOutRecord]

/-- A lenient translator leaves out the items that are errors, counts them and keeps a record of
each. -/
theorem run_leftOut (hlenient : t.options.lenient = true)
    (h : (t.run items).1.writer.failed = false) :
    (t.run items).1.skipped = t.skipped + items.countP (·.isFailure) ∧
      (t.run items).1.leftOut =
        t.leftOut ++ (items.filterMap (·.error?)).map (leaveOutRecord t.options.filename) := by
  fun_induction Translator.run t items with
  | case1 t => simp
  | case2 t e rest _ ih =>
    obtain ⟨hskipped, hleftOut⟩ := ih hlenient h
    constructor
    · rw [hskipped, List.countP_cons_of_pos (by rfl)]
      show t.skipped + 1 + _ = _
      omega
    · rw [hleftOut, leftOut_leaveOut, List.append_assoc]
      rfl
  | case3 t e rest hstrict => exact absurd hlenient hstrict
  | case4 t s rest t' =>
    rename_i hfailed
    exact absurd hfailed (by simpa using h)
  | case5 t s rest t' hok =>
    rename_i ih
    obtain ⟨hskipped, hleftOut⟩ := ih (by rwa [options_apply]) h
    constructor
    · rw [hskipped, skipped_apply, List.countP_cons_of_neg (by simp [Item.isFailure])]
    · rw [hleftOut, leftOut_apply, options_apply]
      rfl

end LeftOut

end Translator

end SqlStubs
