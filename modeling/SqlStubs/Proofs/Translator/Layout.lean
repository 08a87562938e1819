import SqlStubs.Proofs.LineWriter
import SqlStubs.Proofs.Parser.Lines
import SqlStubs.Translator

/-!
# The layout of an output

`translate_layout`: what a translator writes for a source is the comments and stubs of its
statements, in order and each on the line of the source where the statement begins, with line breaks
between them and nothing else; and it has no more lines than the source.

Three counters have to agree for this: the line of a token, which the lexer counts, the line of the
output, which the writer counts, and the line breaks that a statement has in the source and in the
output.  The first two are tied to the bytes by `Lexer.Reached` and `Wrote`.  The third is `Fits`:
no statement writes more line breaks than stand before the next one, so the writer is never past the
line that it is to be moved on to.  For a stub this needs that the return types it shows have no
line break, since an aggregate shows the return type of a function that was declared elsewhere.
-/

namespace SqlStubs

namespace Translator

variable {o : TranslatorOptions} {types : ReturnTypes} {s : Statement}

/-! ### What is to be written -/

/-- The statements that are written: all that can be read, or those before the first error. -/
def applied (lenient : Bool) : List Item → List Statement
  | [] => []
  | .statement s :: items => s :: applied lenient items
  | .failure _ :: items => if lenient then applied lenient items else []

/-- What is written for a statement, if it is more than a line break. -/
def emitted (o : TranslatorOptions) (types : ReturnTypes) (s : Statement) : Option Text :=
  match s.body with
  | .empty | .newline => none
  | .comment text => some text
  | .function d => some (stub (o.returnType d) d.name d.arguments)
  | .aggregate d =>
    some (stub (o.aggregateMarker ++ Text.utf8 " " ++ d.type types) d.name d.arguments)

/-- The return types that are known after a statement. -/
def learned (o : TranslatorOptions) (types : ReturnTypes) (s : Statement) : ReturnTypes :=
  match s.body with
  | .function d => types.insert d.name (o.returnType d)
  | _ => types

/-- The texts that are written for some statements, each with the line of its statement. -/
def pieces (o : TranslatorOptions) : ReturnTypes → List Statement → List (Nat × Text)
  | _, [] => []
  | types, s :: rest =>
    ((emitted o types s).map fun text => (s.location.line, text)).toList
      ++ pieces o (learned o types s) rest

/-- After the output `before` come these pieces, each on its line, and else only line breaks. -/
inductive Layout : (before : Text) → List (Nat × Text) → Text → Prop
  | nil {before : Text} : Layout before [] []
  | newline {before out : Text} {pieces : List (Nat × Text)}
      (others : Layout (before ++ [0x0A]) pieces out) : Layout before pieces (0x0A :: out)
  | piece {before text out : Text} {line : Nat} {pieces : List (Nat × Text)}
      (onLine : Text.newlines before + 1 = line)
      (others : Layout (before ++ text) pieces out) :
      Layout before ((line, text) :: pieces) (text ++ out)

/-- Line breaks may stand before a layout. -/
theorem Layout.newlines {before out : Text} {ps : List (Nat × Text)} (n : Nat)
    (h : Layout (before ++ List.replicate n 0x0A) ps out) :
    Layout before ps (List.replicate n 0x0A ++ out) := by
  induction n generalizing before with
  | zero => simpa using h
  | succ n ih =>
    rw [List.replicate_succ, List.cons_append]
    refine .newline (ih ?_)
    rwa [List.append_assoc, List.singleton_append, ← List.replicate_succ]

/-! ### Line breaks in stubs -/

/-- The line breaks of a stub are those of its parts. -/
theorem newlines_stub (head name : Text) (arguments : List Argument) :
    Text.newlines (stub head name arguments) = Text.newlines head + Text.newlines name
      + Text.newlines (Argument.listText arguments) := by
  have hblank : Text.newlines (Text.utf8 " ") = 0 := by decide
  have hleft : Text.newlines (Text.utf8 "(") = 0 := by decide
  have hright : Text.newlines (Text.utf8 ") \x7b \x7d;") = 0 := by decide
  simp only [stub, Text.newlines_append]
  omega

/-- The type that decides is one of those that are suggested. -/
theorem newlines_foldl_stronger_le (hint : TypeHint) (hints : List TypeHint) :
    Text.newlines (hints.foldl TypeHint.stronger hint).type ≤
      Text.newlines hint.type + Text.newlines (hints.flatMap (·.type)) := by
  induction hints generalizing hint with
  | nil => simp
  | cons h hints ih =>
    have hstronger := ih (hint.stronger h)
    have hone : Text.newlines (hint.stronger h).type ≤
        Text.newlines hint.type + Text.newlines h.type := by
      unfold TypeHint.stronger
      split <;> omega
    rw [List.foldl_cons, List.flatMap_cons, Text.newlines_append]
    omega

theorem newlines_ofOption_le (htypes : ∀ name, Text.newlines (types.get name) = 0)
    (option : AggregateOption) :
    Text.newlines (TypeHint.ofOption types option).type ≤ Text.newlines option.value := by
  unfold TypeHint.ofOption
  split
  · exact Nat.le_trans (Nat.le_of_eq (htypes option.value)) (Nat.zero_le _)
  · exact Nat.le_trans (Nat.le_of_eq (htypes option.value)) (Nat.zero_le _)
  · exact Nat.le_trans (Nat.le_of_eq (htypes option.value)) (Nat.zero_le _)
  · exact Nat.le_refl _
  · exact Nat.zero_le _

/-- The type of an aggregate has no more line breaks than its options. -/
theorem newlines_aggregateType_le (htypes : ∀ name, Text.newlines (types.get name) = 0)
    (d : AggregateDeclaration) :
    Text.newlines (d.type types) ≤ Text.newlines (d.options.flatMap (·.value)) := by
  have hdecide := newlines_foldl_stronger_le .none (d.options.map (TypeHint.ofOption types))
  -- each suggestion is the value of its option, or was looked up
  have hhints : Text.newlines ((d.options.map (TypeHint.ofOption types)).flatMap (·.type)) ≤
      Text.newlines (d.options.flatMap (·.value)) := by
    induction d.options with
    | nil => simp
    | cons option options ih =>
      have hoption := newlines_ofOption_le htypes option
      simp only [List.map_cons, List.flatMap_cons, Text.newlines_append]
      omega
  have hnone : Text.newlines TypeHint.none.type = 0 := rfl
  rw [AggregateDeclaration.type, TypeHint.decide]
  omega

/-- Return types without line breaks stay so if those that are declared have none. -/
theorem newlines_get_learned (htypes : ∀ name, Text.newlines (types.get name) = 0)
    (hreturns : ∀ d, s.body = .function d → Text.newlines (o.returnType d) = 0) (name : Text) :
    Text.newlines ((learned o types s).get name) = 0 := by
  unfold learned
  split
  · rename_i d hbody
    rw [ReturnTypes.get_insert]
    split
    · exact hreturns d hbody
    · exact htypes name
  · exact htypes name

/-- What is written for a statement has no more line breaks than the statement may write. -/
theorem newlines_emitted_le {text : Text} (hmarker : Text.newlines o.aggregateMarker = 0)
    (htypes : ∀ name, Text.newlines (types.get name) = 0)
    (hreturns : ∀ d, s.body = .function d → Text.newlines (o.returnType d) = 0)
    (h : emitted o types s = some text) : Text.newlines text ≤ s.body.weight := by
  unfold emitted at h
  split at h
  · cases h
  · cases h
  · rename_i hbody
    cases h
    rw [hbody]
    exact Nat.le_refl _
  · rename_i d hbody
    cases h
    have hreturn := hreturns d hbody
    rw [hbody, newlines_stub, StatementBody.weight]
    omega
  · rename_i d hbody
    cases h
    -- the type is one of the option values, or was looked up and has no line break
    have htype := newlines_aggregateType_le htypes d
    have hblank : Text.newlines (Text.utf8 " ") = 0 := by decide
    rw [hbody, newlines_stub, StatementBody.weight, Text.newlines_append, Text.newlines_append]
    omega

/-! ### One statement -/

section Step

variable {t : Translator} {out : Text}

@[simp] theorem options_apply : (t.apply s).options = t.options := by
  unfold Translator.apply
  split <;> rfl

@[simp] theorem types_apply : (t.apply s).types = learned t.options t.types s := by
  unfold Translator.apply learned
  cases s.body <;> rfl

/-- A text is written after the writer has been moved on to the line of its statement. -/
theorem writer_apply_of_some {text : Text} (h : emitted t.options t.types s = some text) :
    (t.apply s).writer = (t.writer.advance s.location.line).write text := by
  unfold emitted at h
  unfold Translator.apply
  cases hbody : s.body <;> simp only [hbody] at h <;> cases h <;> rfl

/-- A statement without a text of its own is written as a line break or not at all. -/
theorem writer_apply_of_none (h : emitted t.options t.types s = none) :
    (t.apply s).writer = if s.body = .newline then t.writer.newline else t.writer := by
  unfold emitted at h
  unfold Translator.apply
  cases hbody : s.body with
  | empty => rw [if_neg (by decide)]
  | newline => rw [if_pos rfl]
  | comment | function | aggregate =>
    simp only [hbody] at h
    cases h

/-- A statement writes line breaks up to its line and then its piece, or at most one line break. -/
theorem apply_layout (hw : Wrote t.writer out) (hline : 1 + Text.newlines out ≤ s.location.line)
    (hweight : ∀ text, emitted t.options t.types s = some text →
      Text.newlines text ≤ s.body.weight) :
    ∃ mid, Wrote (t.apply s).writer (out ++ mid) ∧
      1 + Text.newlines (out ++ mid) ≤ s.location.line + s.body.weight ∧
      ∀ {ps rest}, Layout (out ++ mid) ps rest →
        Layout out (((emitted t.options t.types s).map fun text => (s.location.line, text)).toList
          ++ ps) (mid ++ rest) := by
  cases hemitted : emitted t.options t.types s with
  | some text =>
    -- the output has not come past the line of the statement, so line breaks lead there
    let n := s.location.line - (1 + Text.newlines out)
    have hblank : Text.newlines (List.replicate n 0x0A) = n := by
      simp [Text.newlines]
    have hadvance : Wrote (t.writer.advance s.location.line) (out ++ List.replicate n 0x0A) :=
      hw.advance s.location.line
    have hlines : Text.newlines (out ++ List.replicate n 0x0A) + 1 = s.location.line := by
      rw [Text.newlines_append, hblank]
      omega
    refine ⟨List.replicate n 0x0A ++ text, ?_, ?_, ?_⟩
    · rw [writer_apply_of_some hemitted, ← List.append_assoc]
      exact hadvance.write text
    · have htext := hweight text hemitted
      rw [← List.append_assoc, Text.newlines_append]
      omega
    · intro ps rest h
      rw [List.append_assoc]
      refine .newlines n (.piece hlines ?_)
      rwa [List.append_assoc]
  | none =>
    rw [writer_apply_of_none hemitted]
    by_cases hbody : s.body = .newline
    · refine ⟨[0x0A], ?_, ?_, fun h => .newline h⟩
      · rw [if_pos hbody]
        exact hw.write [0x0A]
      · have hone : Text.newlines [0x0A] = 1 := by decide
        rw [hbody, StatementBody.weight, Text.newlines_append, hone]
        omega
    · refine ⟨[], ?_, ?_, fun h => ?_⟩
      · rw [if_neg hbody, List.append_nil]
        exact hw
      · rw [List.append_nil]
        omega
      · rwa [List.append_nil] at h

end Step

/-! ### All statements -/

/-- Items that fit are laid out from the line on at which the output stands, and the output does not
come past the line at which they stop.  The induction is on how the items fit; it keeps that the
output is not past the next statement. -/
theorem run_layout {t : Translator} {out : Text} {stop line : Nat} {items : List Item}
    (hfits : Fits stop line items) (hw : Wrote t.writer out)
    (hline : 1 + Text.newlines out ≤ line) (hmarker : Text.newlines t.options.aggregateMarker = 0)
    (htypes : ∀ name, Text.newlines (t.types.get name) = 0)
    (hreturns : ∀ s ∈ applied t.options.lenient items, ∀ d, s.body = .function d →
      Text.newlines (t.options.returnType d) = 0) :
    ∃ rest, Wrote (t.run items).1.writer (out ++ rest) ∧
      Layout out (pieces t.options t.types (applied t.options.lenient items)) rest ∧
      1 + Text.newlines (out ++ rest) ≤ stop := by
  induction hfits generalizing t out with
  | nil h =>
    refine ⟨[], ?_, .nil, ?_⟩
    · rw [List.append_nil]
      exact hw
    · rw [List.append_nil]
      omega
  | @failure line e items others ih =>
    by_cases hlenient : t.options.lenient = true
    · -- a statement that is left out changes neither the output nor the return types
      have happlied : applied t.options.lenient (.failure e :: items) =
          applied t.options.lenient items := if_pos hlenient
      have hrun : t.run (.failure e :: items) = (t.leaveOut e).run items := if_pos hlenient
      rw [happlied] at hreturns ⊢
      rw [hrun]
      exact ih (t := t.leaveOut e) hw hline hmarker htypes hreturns
    · -- the first error ends the run
      have happlied : applied t.options.lenient (.failure e :: items) = [] := if_neg hlenient
      have hrun : (t.run (.failure e :: items)).1 = t := by
        rw [Translator.run, if_neg hlenient]
      rw [happlied, hrun]
      refine ⟨[], ?_, .nil, ?_⟩
      · rw [List.append_nil]
        exact hw
      · have hstop := others.line_le
        rw [List.append_nil]
        omega
  | @statement line s items h others ih =>
    have hreturn := hreturns s List.mem_cons_self
    -- what the statement writes, after which the output is still not past the next one
    obtain ⟨mid, hmid, hlines, hlayout⟩ := apply_layout hw (Nat.le_trans hline h)
      fun text htext => newlines_emitted_le hmarker htypes hreturn htext
    have hrun : t.run (.statement s :: items) = (t.apply s).run items := by
      rw [Translator.run]
      exact if_neg (by simp [hmid.not_failed])
    have htypes' : ∀ name, Text.newlines ((t.apply s).types.get name) = 0 := by
      rw [types_apply]
      exact newlines_get_learned htypes hreturn
    obtain ⟨rest, hrest, hothers, hstop⟩ := ih (t := t.apply s) hmid hlines
      (by rwa [options_apply]) htypes'
      (by rw [options_apply]; exact fun r hr => hreturns r (List.mem_cons_of_mem s hr))
    rw [options_apply, types_apply] at hothers
    rw [List.append_assoc] at hrest hstop
    rw [hrun]
    exact ⟨mid ++ rest, hrest, hlayout hothers, hstop⟩

/-- The statements that are written are some of those that are read, in their order. -/
theorem applied_sublist (lenient : Bool) (items : List Item) :
    ((applied lenient items).map .statement).Sublist items := by
  induction items with
  | nil => exact .slnil
  | cons item items ih =>
    cases item with
    | statement s => exact ih.cons_cons (.statement s)
    | failure e =>
      rw [applied]
      split
      · exact ih.cons (.failure e)
      · exact List.nil_sublist _

theorem newlines_aggregateMarker (h : 0x0A ∉ o.aggregateMarker) :
    Text.newlines o.withDefaults.aggregateMarker = 0 := by
  show Text.newlines (TranslatorOptions.orDefault _ _) = 0
  unfold TranslatorOptions.orDefault
  split
  · decide
  · exact Text.newlines_eq_zero h

/-- What is written for a source is the texts of its statements in the order of the source, each on
the line of its statement, and line breaks.  There are no more of these than in the source, and the
comments are parts of it. -/
theorem translate_layout (o : TranslatorOptions) (types : ReturnTypes) (source : Text)
    (hmarker : 0x0A ∉ o.aggregateMarker) (htypes : ∀ name, 0x0A ∉ types.get name)
    (hreturns : ∀ s ∈ applied o.lenient (Parser.items (Lexer.tokens source)), ∀ d,
      s.body = .function d → 0x0A ∉ o.withDefaults.returnType d) :
    let statements := applied o.lenient (Parser.items (Lexer.tokens source))
    let out := ((Translator.new o {} types).translate source).1.flush.output
    Layout [] (pieces o.withDefaults types statements) out ∧
      Text.newlines out ≤ Text.newlines source ∧
      statements.Pairwise (fun s r => s.location.offset < r.location.offset) ∧
      ∀ s ∈ statements,
        s.location.line = 1 + Text.newlines (source.take s.location.offset) ∧
        ∀ text, s.body = .comment text →
          Lexer.slice source s.location.offset (s.location.offset + text.length) = text := by
  intro statements out
  let ts := Lexer.tokens source
  have hreached := Lexer.reached_ofText source
  have hrun : Parser.Run ts.stop ts.pending (segments ts.pending) (Parser.items ts) :=
    Parser.run_items (Lexer.kind_ne_eof_of_mem_toEnd _)
  have hnewline : ∀ t ∈ ts.pending, t.kind = .newline → t.text = [0x0A] :=
    hreached.forall_toEnd fun _ hne => Lexer.Reached.next_newline hne
  have hplace : ∀ t ∈ ts.pending,
      t.location.line = 1 + Text.newlines (source.take t.location.offset) :=
    hreached.forall_toEnd fun h hne => h.next_line_offset hne
  have htiles : Lexer.Tiles source false 0 ts.pending :=
    Lexer.tiles_toEnd hreached fun h => absurd rfl h
  have hfits : Fits ts.stop.line 1 (Parser.items ts) :=
    hrun.fits hnewline hreached.linesFrom_toEnd
  obtain ⟨rest, hwrote, hlayout, hstop⟩ := run_layout (t := Translator.new o {} types) hfits
    Wrote.onSink (Nat.le_refl 1) (newlines_aggregateMarker hmarker)
    (fun name => Text.newlines_eq_zero (htypes name))
    (fun s hs d hd => Text.newlines_eq_zero (hreturns s hs d hd))
  have hout : out = rest := hwrote.output_flush
  have hend : ts.stop.line = 1 + Text.newlines source := hreached.stop_toEnd
  rw [List.nil_append, hend] at hstop
  have happlied := applied_sublist o.lenient (Parser.items ts)
  refine ⟨?_, ?_, ?_, fun s hs => ?_⟩
  · rw [hout]
    exact hlayout
  · rw [hout]
    omega
  · have hitems := hrun.pairwise (R := fun i j => i.offset < j.offset) htiles.pairwise_offset
    exact (List.pairwise_map.1 (hitems.sublist happlied)).imp fun h => h _ _ rfl rfl
  · obtain ⟨t, ht, hlocation, hcomment⟩ :=
      hrun.exists_token (happlied.subset (List.mem_map_of_mem hs))
    rw [hlocation]
    constructor
    · exact hplace t ht
    · intro text hbody
      obtain ⟨hkind, rfl⟩ := hcomment text hbody
      -- a comment is a token, and a token shows its part of the source
      have hshows := (htiles.span t ht).1
      rw [Lexer.Shows, hkind] at hshows
      rw [← Lexer.literal_eq_text (by simp [hkind])]
      exact hshows.2

/-- A default value of two lines does not push the aggregate after it off its line. -/
theorem translate_layout_two_line_default :
    Layout []
      [(1, Text.utf8 "-- sum"), (2, Text.utf8 "int f(text a = 'x\ny') \x7b \x7d;"),
        (4, Text.utf8 "@aggregate int g() \x7b \x7d;")]
      ((Translator.new {} {} {}).translate (Text.utf8
        "-- sum\nCREATE FUNCTION f(a text='x\ny') RETURNS int;\nCREATE AGGREGATE g(*)(SFUNC=f);")
        ).1.flush.output := by
  generalize hsource : Text.utf8
    "-- sum\nCREATE FUNCTION f(a text='x\ny') RETURNS int;\nCREATE AGGREGATE g(*)(SFUNC=f);" =
      source
  have hpieces : pieces (TranslatorOptions.withDefaults {}) {}
      (applied false (Parser.items (Lexer.tokens source))) =
      [(1, Text.utf8 "-- sum"), (2, Text.utf8 "int f(text a = 'x\ny') \x7b \x7d;"),
        (4, Text.utf8 "@aggregate int g() \x7b \x7d;")] := by
    rw [← hsource]
    decide +kernel
  have hall : (applied false (Parser.items (Lexer.tokens source))).all (fun s =>
      match s.body with
      | .function d => !((TranslatorOptions.withDefaults {}).returnType d).contains 0x0A
      | _ => true) = true := by
    rw [← hsource]
    decide +kernel
  rw [← hpieces]
  refine (translate_layout {} {} source (by decide) (fun _ => List.not_mem_nil) ?_).1
  intro s hs d hd
  have hone := List.all_eq_true.1 hall s hs
  rw [hd] at hone
  simpa using hone

end Translator

end SqlStubs
