import SqlStubs.Proofs.Grammar

/-!
# Line breaks of a declaration

A stub shows names, types and default values, and a quoted name or a string may hold line breaks.
`Sentence.weight_le`: what a stub shows of a declaration has no more line breaks than the tokens of
the declaration.  This is so because each token is shown at most once, which is read off the
grammar: the value of a phrase is put together from the values of its parts.
-/

namespace SqlStubs

/-- The number of line breaks in the bytes of some tokens. -/
def lineBreaks (w : List Token) : Nat := Text.newlines (w.flatMap (·.text))

@[simp] theorem lineBreaks_nil : lineBreaks [] = 0 := rfl

@[simp] theorem lineBreaks_cons (t : Token) (w : List Token) :
    lineBreaks (t :: w) = Text.newlines t.text + lineBreaks w := by
  simp [lineBreaks]

@[simp] theorem lineBreaks_append (w v : List Token) :
    lineBreaks (w ++ v) = lineBreaks w + lineBreaks v := by
  simp [lineBreaks]

/-- The number of line breaks that a statement may write on its own account: all but those of return
types. -/
def StatementBody.weight : StatementBody → Nat
  | .empty => 0
  | .comment text => Text.newlines text
  | .newline => 1
  | .function d => Text.newlines d.name + Text.newlines (Argument.listText d.arguments)
  | .aggregate d =>
    Text.newlines d.name + Text.newlines (Argument.listText d.arguments)
      + Text.newlines (d.options.flatMap (·.value))

/-! ### Texts -/

namespace Text

theorem newlines_cons (b : UInt8) (s : Text) :
    newlines (b :: s) = (if b = 0x0A then 1 else 0) + newlines s := by
  unfold newlines
  rw [List.count_cons]
  by_cases h : b = 0x0A
  · simp [h, Nat.add_comm]
  · simp [h]

/-- A text without a line break has none to count. -/
theorem newlines_eq_zero {s : Text} (h : 0x0A ∉ s) : newlines s = 0 :=
  List.count_eq_zero.2 h

/-- Joining texts adds no line breaks if the separator has none. -/
theorem newlines_join {separator : Text} (h : newlines separator = 0) (l : List Text) :
    newlines (join separator l) = newlines l.flatten := by
  fun_induction join separator l with
  | case1 => rfl
  | case2 s => simp
  | case3 s rest hne ih =>
    rw [newlines_append, newlines_append, ih, h, List.flatten_cons, newlines_append]
    omega

end Text

/-- Of two quotation marks one is left, and all other bytes stay. -/
theorem newlines_undouble_le (s : Text) : Text.newlines (undouble s) ≤ Text.newlines s := by
  fun_induction undouble s with
  | case1 s ih =>
    rw [Text.newlines_cons, Text.newlines_cons, Text.newlines_cons]
    omega
  | case2 b s hne ih =>
    rw [Text.newlines_cons, Text.newlines_cons]
    omega
  | case3 => exact Nat.le_refl 0

/-- A name without its quotation marks has no more line breaks than with them. -/
theorem newlines_unquote_le (s : Text) : Text.newlines (unquote s) ≤ Text.newlines s := by
  unfold unquote
  split
  · rename_i b s
    have hdrop : Text.newlines (b :: s).dropLast ≤ Text.newlines (b :: s) :=
      (List.dropLast_sublist (b :: s)).count_le 0x0A
    have hundouble := newlines_undouble_le (b :: s).dropLast
    have hcons := Text.newlines_cons 0x22 (b :: s)
    omega
  · exact Nat.le_refl _

namespace Grammar

/-! ### Lists of phrases -/

section Lists

variable {α : Type} {G : List Token → α → Prop} (text : α → Text) {w : List Token} {as : List α}

/-- The parts of a repetition are in different tokens, so their line breaks add up. -/
theorem Repeated.newlines_le (hG : ∀ w a, G w a → Text.newlines (text a) ≤ lineBreaks w)
    (h : Repeated G w as) : Text.newlines (as.flatMap text) ≤ lineBreaks w := by
  induction h with
  | nil => exact Nat.le_refl 0
  | cons first _ ih =>
    have hfirst := hG _ _ first
    rw [List.flatMap_cons, Text.newlines_append, lineBreaks_append]
    omega

/-- The parts of a list are in different tokens, and the separators may have line breaks of their
own. -/
theorem Separated.newlines_le {separator : Kind}
    (hG : ∀ w a, G w a → Text.newlines (text a) ≤ lineBreaks w) (h : Separated separator G w as) :
    Text.newlines (as.flatMap text) ≤ lineBreaks w := by
  induction h with
  | one only =>
    have honly := hG _ _ only
    simpa using honly
  | more first _ _ ih =>
    have hfirst := hG _ _ first
    rw [List.flatMap_cons, Text.newlines_append, lineBreaks_append, lineBreaks_cons]
    omega

end Lists

/-! ### Names and types -/

variable {w : List Token} {name type value : Text}

theorem Name.newlines_le (h : Name w name) : Text.newlines name ≤ lineBreaks w := by
  cases h with
  | @token t h =>
    have hunquote := newlines_unquote_le t.text
    rw [lineBreaks_cons]
    omega

/-- A qualified name shows its last part. -/
theorem QualifiedName.newlines_le (h : QualifiedName w name) :
    Text.newlines name ≤ lineBreaks w := by
  cases h with
  | parts h =>
    -- the qualifiers are not shown, but their tokens are there
    have hparts := h.newlines_le id fun _ _ h => Name.newlines_le h
    rw [List.flatMap_append, List.flatMap_singleton, Text.newlines_append, id] at hparts
    omega

/-- The names of the types of two words are fixed texts. -/
theorem TwoWords.newlines_eq {k k' : Kind} (h : TwoWords k k' name) :
    Text.newlines name = 0 := by
  cases h <;> decide

theorem TimeWord.newlines_eq {k : Kind} (h : TimeWord k name) : Text.newlines name = 0 := by
  cases h <;> decide

theorem Zone.newlines_eq {suffix : Text} (h : Zone w suffix) : Text.newlines suffix = 0 := by
  cases h <;> decide

/-- A type shows a fixed text or a name, and none of its modifiers. -/
theorem BaseType.newlines_le (h : BaseType w type) : Text.newlines type ≤ lineBreaks w := by
  cases h with
  | twoWords words =>
    rw [words.newlines_eq]
    exact Nat.zero_le _
  | time word _ zone =>
    rw [Text.newlines_append, word.newlines_eq, zone.newlines_eq]
    exact Nat.zero_le _
  | named words =>
    have hname := words.newlines_le
    rw [lineBreaks_append]
    omega

theorem Bounds.newlines_le {bounds : Text} (h : Bounds w bounds) :
    Text.newlines bounds ≤ lineBreaks w := by
  cases h with
  | unbounded =>
    have hzero : Text.newlines (Text.utf8 "[]") = 0 := by decide
    omega
  | @bounded l n r =>
    have hleft : Text.newlines (Text.utf8 "[") = 0 := by decide
    have hright : Text.newlines (Text.utf8 "]") = 0 := by decide
    simp only [Text.newlines_append, lineBreaks_cons, lineBreaks_nil]
    omega

/-- A type shows its name and its array bounds. -/
theorem TypeName.newlines_le (h : TypeName w type) : Text.newlines type ≤ lineBreaks w := by
  cases h with
  | base base arrays =>
    have hbase := base.newlines_le
    have harrays := arrays.newlines_le id fun _ _ h => Bounds.newlines_le h
    rw [List.flatMap_id] at harrays
    rw [Text.newlines_append, lineBreaks_append]
    omega

/-! ### Values -/

theorem Operand.newlines_le (h : Operand w value) : Text.newlines value ≤ lineBreaks w := by
  cases h with
  | signed =>
    simp only [Text.newlines_append, lineBreaks_cons, lineBreaks_nil]
    omega
  | plain =>
    rw [lineBreaks_cons]
    omega

/-- A value shows all of its tokens, with a fixed mark before the type it is cast to. -/
theorem Expression.newlines_le (h : Expression w value) : Text.newlines value ≤ lineBreaks w := by
  cases h with
  | plain operand => exact operand.newlines_le
  | cast operand _ target =>
    have hoperand := operand.newlines_le
    have htarget := target.newlines_le
    have hmark : Text.newlines (Text.utf8 "::") = 0 := by decide
    simp only [Text.newlines_append, lineBreaks_append, lineBreaks_cons]
    omega

theorem MarkedDefault.newlines_le (h : MarkedDefault w value) :
    Text.newlines value ≤ lineBreaks w := by
  cases h with
  | marked _ h =>
    have hvalue := h.newlines_le
    rw [lineBreaks_cons]
    omega

/-- A default shows its value, and not the comment around it. -/
theorem DefaultClause.newlines_le (h : DefaultClause w value) :
    Text.newlines value ≤ lineBreaks w := by
  cases h with
  | none => exact Nat.le_refl 0
  | plain h => exact h.newlines_le
  | escaped _ h =>
    have hvalue := h.newlines_le
    rw [lineBreaks_cons, lineBreaks_append]
    omega

/-! ### Arguments -/

/-- The name and the type of an argument are in different tokens. -/
theorem NameAndType.newlines_le (h : NameAndType w name type) :
    Text.newlines name + Text.newlines type ≤ lineBreaks w := by
  cases h with
  | unnamed h =>
    have htype := h.newlines_le
    rw [Text.newlines_nil]
    omega
  | @named n _ _ _ h =>
    have htype := h.newlines_le
    have hname := newlines_unquote_le n.text
    rw [lineBreaks_cons]
    omega

/-- An argument is shown with blanks and an equals sign, which are no line breaks. -/
theorem newlines_argumentText_le (a : Argument) :
    Text.newlines a.text ≤
      Text.newlines a.name + Text.newlines a.type + Text.newlines a.default := by
  have hblank : Text.newlines (Text.utf8 " ") = 0 := by decide
  have hequals : Text.newlines (Text.utf8 " = ") = 0 := by decide
  unfold Argument.text
  rw [Text.newlines_append, Text.newlines_append]
  -- there may be no name and no default
  split <;> split <;> simp only [Text.newlines_append, Text.newlines_nil] <;> omega

theorem FormalArgument.newlines_le {modes : Bool} {arg : Argument}
    (h : FormalArgument modes w arg) : Text.newlines arg.text ≤ lineBreaks w := by
  have htext := newlines_argumentText_le arg
  cases h with
  | unmarked h value =>
    have hname := h.newlines_le
    have hvalue := value.newlines_le
    rw [lineBreaks_append]
    simp only at htext
    omega
  | marked _ _ h value =>
    have hname := h.newlines_le
    have hvalue := value.newlines_le
    rw [lineBreaks_cons, lineBreaks_append]
    simp only at htext
    omega

/-- A list of arguments is shown with commas, and its arguments are in different tokens. -/
theorem newlines_listText_le {modes : Bool} {args : List Argument}
    (h : Separated .comma (FormalArgument modes) w args) :
    Text.newlines (Argument.listText args) ≤ lineBreaks w := by
  rw [Argument.listText, Text.newlines_join (by decide), ← List.flatMap_def]
  exact h.newlines_le Argument.text fun _ _ h => FormalArgument.newlines_le h

/-! ### Statements -/

/-- A function shows its name and its arguments. -/
theorem FunctionPhrase.weight_le {d : FunctionDeclaration} (h : FunctionPhrase w d) :
    (StatementBody.function d).weight ≤ lineBreaks w := by
  cases h with
  | @intro f l r w v x y name arguments returns units mark named left args =>
    have hname := named.newlines_le
    have hargs : Text.newlines (Argument.listText arguments) ≤ lineBreaks v := by
      cases args with
      | none => exact Nat.le_refl 0
      | some h => exact newlines_listText_le h
    simp only [StatementBody.weight, lineBreaks_cons, lineBreaks_append]
    omega

theorem AggregateSetting.newlines_le {o : AggregateOption} (h : AggregateSetting w o) :
    Text.newlines o.value ≤ lineBreaks w := by
  cases h with
  | function _ _ h | stateType _ _ h | firstState _ _ h =>
    have hvalue := h.newlines_le
    simp only [lineBreaks_cons]
    omega

/-- An aggregate shows its name, its arguments and what its options are. -/
theorem AggregatePhrase.weight_le {d : AggregateDeclaration} (h : AggregatePhrase w d) :
    (StatementBody.aggregate d).weight ≤ lineBreaks w := by
  cases h with
  | @intro l r l' r' x w v y name wildcard arguments options words named left args right left'
      settings =>
    have hname := named.newlines_le
    have hargs : Text.newlines (Argument.listText arguments) ≤ lineBreaks v := by
      cases args with
      | star => exact Nat.zero_le _
      | some h => exact newlines_listText_le h
    have hsettings := settings.newlines_le (fun o => o.value)
      fun _ _ h => AggregateSetting.newlines_le h
    simp only [StatementBody.weight, lineBreaks_cons, lineBreaks_append]
    omega

/-- What a stub shows of a declaration has no more line breaks than its tokens. -/
theorem Sentence.weight_le {body : StatementBody} (h : Sentence w body) :
    body.weight ≤ lineBreaks w := by
  cases h with
  | intro _ h =>
    rw [lineBreaks_append, lineBreaks_append]
    cases h with
    | function h =>
      have hweight := h.weight_le
      omega
    | aggregate h =>
      have hweight := h.weight_le
      omega

end Grammar

end SqlStubs
