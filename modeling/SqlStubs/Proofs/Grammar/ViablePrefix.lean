import SqlStubs.Proofs.Grammar.Predictive

/-!
# What is read before an error begins a phrase

`statementBody_predictive`: where a statement fails, the tokens before the error begin some phrase
of the grammar, and whatever follows the token at which the error is, the parser fails in the same
way.  So these tokens can be completed to a statement, and with the token at the error they cannot.

There is one lemma per parser.  Types, arguments and results are chosen by a look at two tokens; for
these the completeness of the parser gives something that it succeeds on, which is what
`PredictiveAt.lookahead` asks for.
-/

namespace SqlStubs

open SqlStubs.Parser

namespace Grammar

variable {ts : Tokens}

/-! ### Names and types -/

theorem phrases_name {t : Token} (h : t.kind.isName = true) : Phrases Name [t] := ⟨_, .token h⟩

/-- A name is one token, so an error is at the first one. -/
theorem identifier_predictive {expected : Expectation} :
    Predictive (identifier expected) (Phrases Name) := by
  intro ts
  refine current_bind_predictive ?_
  split
  · rename_i hname
    exact next_pure_predictive (kind_ne_eof (·.isName = true) hname (by decide))
      (phrases_name hname)
  · exact unexpected_predictive ⟨[sample .identifier], phrases_name rfl⟩ ts

/-- A qualified name is decided by its points: after each of them a name has to follow. -/
theorem qualifiedName_predictive {expected : Expectation} :
    Predictive (qualifiedName expected) (Phrases QualifiedName) := by
  intro ts
  have hothers : ∀ first, Predictive (do
      let others ← many (· = .dot) do
        next
        identifier expected
      return others.getLastD first : Parser Text) _ :=
    fun first ts =>
      (many_next_predictive (by decide) identifier_predictive ts).bind_pure fun _ hw => hw
  refine (identifier_predictive ts).bind hothers ⟨[], [], .nil⟩ ?_
  rintro w v ⟨first, hfirst⟩ ⟨others, hmore⟩
  -- the name is the last part, and the grammar has it last too
  obtain ⟨qualifiers, hlast⟩ := exists_append_getLastD first others
  have hparts : Separated .dot Name (w ++ v) (first :: others) := .of_repeated hfirst hmore
  rw [hlast] at hparts
  exact ⟨_, .parts hparts⟩

theorem phrases_qualifiedName {t : Token} (h : t.kind.isName = true) : Phrases QualifiedName [t] :=
  ⟨_, @QualifiedName.parts [t] [] _ (.one (.token h))⟩

/-- Modifiers are decided by the parenthesis that opens them. -/
theorem typeModifiers_predictive : Predictive typeModifiers Modifiers := by
  intro ts
  have hsizes : Predictive ((commaSeparated ((expect .integer).catchUp (Tokens.dropKind .comma))))
      (Phrases (Separated .comma fun w (_ : Unit) => Spells [.integer] w)) := by
    refine commaSeparated_predictive fun ts => ?_
    exact ((expect_predictive (by decide)).catchUp ts).mono fun w hw => ⟨(), hw⟩
  refine accept_bind_predictive (by decide) (hsizes.before (by decide)).discard (fun _ => ?_) ?_
  · exact pure_predictive (L := Modifiers) .none ts
  · rintro l v hl ⟨w, r, rfl, ⟨units, hw⟩, hr⟩
    exact .some hl hw hr

/-- What follows the first word of a time type. -/
def TimeRest (w : List Token) : Prop := ∃ v x, w = v ++ x ∧ Modifiers v ∧ Phrases Zone x

/-- The zone of a time type is decided by its first word. -/
theorem zone_predictive {base : Text} : Predictive (zone base) TimeRest := by
  intro ts
  have hwords : ∀ {text : Text}, Predictive (do
      expectAll [.keyword .time, .keyword .zone]
      return text : Parser Text) (Spells [.keyword .time, .keyword .zone]) :=
    fun ts => (expectAll_predictive (by decide) ts).bind_pure fun _ hw => hw
  refine (typeModifiers_predictive.catchUp ts).bind (M := Phrases Zone) (fun _ ts => ?_)
    ⟨[], _, .none⟩ fun w v hw hv => ⟨w, v, rfl, hw, hv⟩
  refine accept_bind_predictive (by decide) hwords (fun _ => ?_) ?_
  · refine accept_bind_predictive (by decide) hwords (fun _ => ?_) ?_
    · exact pure_predictive (L := Phrases Zone) ⟨_, .none⟩ ts
    · intro t v ht hv
      exact ⟨_, .unzoned (spells_cons.2 ⟨ht, hv⟩)⟩
  · intro t v ht hv
    exact ⟨_, .zoned (spells_cons.2 ⟨ht, hv⟩)⟩

theorem arrayBounds_predictive : Predictive arrayBounds (Phrases Bounds) := by
  intro ts
  have hclose : ∀ {text : Text}, Predictive (do
      expect .rightBracket
      return text : Parser Text) (Spells [.rightBracket]) :=
    fun ts => (expect_predictive (by decide) ts).bind_pure fun _ hw => hw
  refine (expect_predictive (by decide) ts).bind
    (M := fun w => Spells [.rightBracket] w ∨ Spells [.integer, .rightBracket] w)
    (fun _ ts => current_bind_predictive ?_) ⟨[sample .rightBracket], .inl rfl⟩ ?_
  · split
    · rename_i hinteger
      refine next_bind_predictive (by simp [hinteger]) hclose fun v hv => .inr ?_
      exact spells_cons.2 ⟨hinteger, hv⟩
    · exact (hclose ts).mono fun w hw => .inl hw
  -- with the opening bracket these are the two forms of the grammar
  · rintro w v hw (hv | hv)
    · obtain ⟨l, rfl, hl⟩ := List.map_eq_singleton_iff.1 hw
      exact ⟨_, .unbounded (spells_cons.2 ⟨hl, hv⟩)⟩
    · obtain ⟨l, rfl, hl⟩ := List.map_eq_singleton_iff.1 hw
      obtain ⟨n, v, rfl, hn, hv⟩ := List.map_eq_cons_iff.1 hv
      obtain ⟨r, rfl, hr⟩ := List.map_eq_singleton_iff.1 hv
      exact ⟨_, .bounded (by simp [hl, hn, hr])⟩

/-- Every name alone is a type. -/
theorem phrases_baseType {t : Token} (h : t.kind.isName = true) : Phrases BaseType [t] := by
  cases htime : timeType? t.kind with
  | some name =>
    exact ⟨_, @BaseType.time t [] [] _ _ (timeType?_eq_some_iff.1 htime) .none .none⟩
  | none =>
    obtain ⟨name, hname⟩ := phrases_qualifiedName h
    rw [timeType?_eq_none_iff] at htime
    exact ⟨_, @BaseType.named [t] [] _ hname (by simpa using htime) .none⟩

/-- A type whose first two words are not those of a type of two words. -/
def oneWordType (t : Token) : Parser Text :=
  match timeType? t.kind with
  | some name => do
    next
    zone name
  | none =>
    if t.kind.isName then do
      let name ← qualifiedName .typeName
      typeModifiers
      return name
    else unexpected .type

/-- Where two words are not those of a type, the second has no say. -/
theorem baseType_of_twoWordType?_eq_none (h : twoWordType? ts.current.kind ts.peek.kind = none) :
    baseType ts = oneWordType ts.current ts := by
  rw [baseType, current_bind, peek_bind, h]
  rfl

/-- Such a type is decided by one token at a time. -/
theorem oneWordType_predictive : PredictiveAt (oneWordType ts.current) (Phrases BaseType) ts := by
  unfold oneWordType
  split
  · rename_i name htime
    have hne := kind_ne_eof (timeType? · = some name) htime (by simp [timeType?])
    refine next_bind_predictive hne zone_predictive ?_
    rintro _ ⟨v, x, rfl, hv, suffix, hx⟩
    exact ⟨_, .time (timeType?_eq_some_iff.1 htime) hv hx⟩
  · rename_i htime
    split
    · have hmodifiers : ∀ name, Predictive (do
          typeModifiers
          return name : Parser Text) Modifiers :=
        fun name ts => (typeModifiers_predictive ts).bind_pure fun _ hw => hw
      -- the name does not begin with the word of a time type, and neither does its completion
      refine ((qualifiedName_predictive ts).starting (fun t => timeType? t.kind = none) htime
        ⟨[sample .identifier], phrases_qualifiedName rfl, by simp [sample, timeType?]⟩).bind
        hmodifiers ⟨[], .none⟩ ?_
      rintro w v ⟨⟨name, hw⟩, hfirst⟩ hv
      refine ⟨name, .named hw (fun t ht => ?_) hv⟩
      exact timeType?_eq_none_iff.1 (hfirst t ht)
    · exact unexpected_predictive (L := Phrases BaseType) ⟨[sample .identifier],
        phrases_baseType rfl⟩ ts

/-- A type of two words, after the first. -/
theorem secondWord_predictive (name : Text) (hne : ts.current.kind ≠ .eof) :
    PredictiveAt (do
      next
      typeModifiers
      return name : Parser Text) (fun w => ∃ v, w = ts.current :: v ∧ Modifiers v) ts := by
  refine next_bind_predictive hne (M := Modifiers) (fun ts => ?_) fun v hv => ⟨v, rfl, hv⟩
  exact (typeModifiers_predictive ts).bind_pure fun _ hw => hw

/-- A type is decided by one token at a time.  Of two words that make a type both are taken; else
the first one is taken in any case, if it is a name, and so the look at the second does no harm. -/
theorem baseType_predictive : Predictive baseType (Phrases BaseType) := by
  intro ts
  cases hwords : twoWordType? ts.current.kind ts.peek.kind with
  | some name =>
    have hts := eq_prepend_of_twoWordType? hwords
    have hfirst : ts = ts.advance.prepend [ts.current] := by
      rw [hts]
      rfl
    have hne : ts.advance.current.kind ≠ .eof :=
      kind_ne_eof (·.isName = true) (twoWordType?_eq_some_iff.1 hwords).isName.2 (by decide)
    refine (secondWord_predictive name hne).cons hfirst (fun us hus => ?_) ?_
    · have hpeek : (us.prepend [ts.current]).peek = ts.peek := hus
      rw [baseType, current_bind, peek_bind, Tokens.current_prepend_cons, hpeek, hwords]
      rfl
    · rintro _ ⟨v, rfl, hv⟩
      exact ⟨name, .twoWords (twoWordType?_eq_some_iff.1 hwords) hv⟩
  | none =>
    have hsame : ∀ us : Tokens, us.current = ts.current → us.peek = ts.peek →
        baseType us = oneWordType ts.current us := by
      intro us hcurrent hpeek
      rw [baseType_of_twoWordType?_eq_none (by rwa [hcurrent, hpeek]), hcurrent]
    refine oneWordType_predictive.lookahead hsame ?_
    -- a name alone, before the end, is a type that the parser succeeds on
    by_cases hname : ts.current.kind.isName = true
    · let nothing : Tokens := ⟨[], {}⟩
      obtain ⟨name, hphrase⟩ := phrases_baseType hname
      have hrun := @baseType_complete _ _ nothing hphrase (by decide)
      have hone : twoWordType? ts.current.kind nothing.current.kind = none :=
        twoWordType?_eq_none (by decide) (by decide)
      rw [baseType_of_twoWordType?_eq_none hone] at hrun
      exact .inr ⟨nothing.prepend [ts.current], name, nothing, rfl, hrun,
        ne_prepend_cons nothing ts.current []⟩
    -- where no name is in front, no words make a type
    · refine .inl fun us hus => ?_
      rw [baseType_of_twoWordType?_eq_none, hus]
      cases h : twoWordType? us.current.kind us.peek.kind with
      | none => rfl
      | some name => exact absurd (hus ▸ (twoWordType?_eq_some_iff.1 h).isName.1) hname

/-- A type with its array bounds is decided by one token at a time. -/
theorem type_predictive : Predictive type (Phrases TypeName) := by
  intro ts
  have hbounds : ∀ base, Predictive (do
      let bounds ← many (· = .leftBracket) arrayBounds
      return base ++ bounds.flatten : Parser Text) (Phrases (Repeated Bounds)) :=
    fun base ts => (many_predictive (fun ts _ => arrayBounds_predictive ts) ts).bind_pure
      fun _ hw => hw
  refine (baseType_predictive ts).bind hbounds ⟨[], [], .nil⟩ ?_
  rintro w v ⟨base, hw⟩ ⟨bounds, hv⟩
  exact ⟨_, .base hw hv⟩

/-- Every name alone is a type. -/
theorem phrases_typeName {t : Token} (h : t.kind.isName = true) : Phrases TypeName [t] := by
  obtain ⟨base, hbase⟩ := phrases_baseType h
  exact ⟨_, @TypeName.base [t] [] base [] hbase .nil⟩

/-! ### Values -/

/-- A value is decided by its sign, if it has one, and by one token more. -/
theorem operand_predictive : Predictive operand (Phrases Operand) := by
  intro ts
  refine current_bind_predictive ?_
  split
  · rename_i hsign
    have hsign' : ts.current.kind = .plus ∨ ts.current.kind = .minus := by simpa using hsign
    refine next_bind_predictive (by rcases hsign' with h | h <;> simp [h])
      (M := fun w => ∃ t, w = [t] ∧ isOperand t.kind = true)
      (fun ts => current_bind_predictive ?_) ?_
    · split
      · rename_i hoperand
        exact next_pure_predictive (kind_ne_eof (isOperand · = true) hoperand (by decide))
          ⟨_, rfl, hoperand⟩
      · exact unexpected_predictive (L := fun w => ∃ t, w = [t] ∧ isOperand t.kind = true)
          ⟨_, sample .integer, rfl, rfl⟩ ts
    · rintro v ⟨t, rfl, ht⟩
      exact ⟨_, .signed hsign' (by simpa [isOperand, or_assoc] using ht)⟩
  · split
    · rename_i hvalue
      exact next_pure_predictive (kind_ne_eof (isValue · = true) hvalue (by decide))
        ⟨_, .plain (mem_or_isName_of_isValue hvalue)⟩
    · exact unexpected_predictive (L := Phrases Operand)
        ⟨[sample .integer], _, .plain (.inl (by decide))⟩ ts

/-- There is a value. -/
theorem phrases_expression : ∃ w, Phrases Expression w :=
  ⟨[sample .integer], _, .plain (.plain (.inl (by decide)))⟩

/-- Whether a value is cast is decided by the colons after it. -/
theorem expression_predictive : Predictive expression (Phrases Expression) := by
  intro ts
  have hcast : ∀ value, Predictive (do
      let cast ← type
      return value ++ Text.utf8 "::" ++ cast : Parser Text) (Phrases TypeName) :=
    fun value ts => (type_predictive ts).bind_pure fun _ hw => hw
  refine (operand_predictive ts).bind
    (M := fun w => w = [] ∨ ∃ c v, w = c :: v ∧ c.kind = .doubleColon ∧ Phrases TypeName v)
    (fun value ts => ?_) ⟨[], .inl rfl⟩ ?_
  · refine accept_bind_predictive (by decide) (hcast value) (fun _ => ?_)
      fun t v ht hv => .inr ⟨t, v, rfl, ht, hv⟩
    exact pure_predictive
      (L := fun w => w = [] ∨ ∃ c v, w = c :: v ∧ c.kind = .doubleColon ∧ Phrases TypeName v)
      (.inl rfl) ts
  · rintro w _ ⟨value, hw⟩ (rfl | ⟨c, v, rfl, hc, name, hv⟩)
    · rw [List.append_nil]
      exact ⟨_, .plain hw⟩
    · exact ⟨_, .cast hw hc hv⟩

theorem markedDefault_predictive : Predictive markedDefault (Phrases MarkedDefault) := by
  intro ts
  have hsample : ∃ w, Phrases MarkedDefault w := by
    obtain ⟨w, value, hw⟩ := phrases_expression
    exact ⟨sample .equals :: w, value, .marked (.inr rfl) hw⟩
  refine accept_bind_predictive (by decide) expression_predictive (fun _ => ?_) ?_
  · refine accept_bind_predictive (by decide) expression_predictive (fun _ => ?_) ?_
    · exact unexpected_predictive hsample ts
    · rintro m v hm ⟨value, hv⟩
      exact ⟨value, .marked (.inr hm) hv⟩
  · rintro m v hm ⟨value, hv⟩
    exact ⟨value, .marked (.inl hm) hv⟩

/-- A default is decided by its first token. -/
theorem defaultClause_predictive : Predictive defaultClause (Phrases DefaultClause) := by
  intro ts
  have hplain := (markedDefault_predictive ts).mono
    fun w (⟨value, hw⟩ : Phrases MarkedDefault w) => (⟨value, .plain hw⟩ : Phrases DefaultClause w)
  refine current_bind_predictive ?_
  split
  · rename_i hopen
    refine next_bind_predictive (by simp [hopen]) (markedDefault_predictive.before (by decide)) ?_
    rintro _ ⟨v, c, rfl, ⟨value, hv⟩, hc⟩
    exact ⟨value, .escaped hopen hv hc⟩
  · exact hplain
  · exact hplain
  · exact pure_predictive (L := Phrases DefaultClause) ⟨_, .none⟩ ts

/-! ### Arguments -/

/-- A type whose first token is in `P`, and a default value. -/
def TypeAndDefault (P : Token → Prop) (w : List Token) : Prop :=
  ∃ x y, w = x ++ y ∧ (Phrases TypeName x ∧ ∀ t ∈ x.head?, P t) ∧ Phrases DefaultClause y

/-- The type of an argument and its default, where something is known of the first token of the
type. -/
theorem typeAndDefault_predictive (mode : ArgumentMode) (name : Text) (P : Token → Prop)
    (hP : P ts.current) (hsample : ∃ w, Phrases TypeName w ∧ ∀ t ∈ w.head?, P t) :
    PredictiveAt (do
      let type ← type
      let default ← defaultClause
      return { mode, name, type, default } : Parser Argument) (TypeAndDefault P) ts := by
  refine ((type_predictive ts).starting P hP hsample).bind (M := Phrases DefaultClause)
    (fun type ts => ?_) ⟨[], _, .none⟩ fun w v hw hv => ⟨w, v, rfl, hw, hv⟩
  exact (defaultClause_predictive ts).bind_pure fun _ hw => hw

/-- What follows the mode of an argument, be it written or not. -/
def ArgumentRest (w : List Token) : Prop :=
  ∃ x y name type, w = x ++ y ∧ NameAndType x name type ∧ Phrases DefaultClause y

/-- Every name alone is a type without a name. -/
theorem argumentRest_of_isName {t : Token} (h : t.kind.isName = true) : ArgumentRest [t] := by
  obtain ⟨type, htype⟩ := phrases_typeName h
  exact ⟨[t], [], [], type, rfl, .unnamed htype, _, .none⟩

/-- Whether the first of two tokens is the name of an argument. -/
def namesArgument (first second : Kind) : Bool :=
  first.isName && second.isName && (twoWordType? first second).isNone

/-- Before a type, the name of an argument is taken. -/
theorem argumentName_of_namesArgument {n : Token}
    (h : namesArgument n.kind ts.current.kind = true) :
    argumentName (ts.prepend [n]) = .ok (unquote n.text) ts := by
  have hname : n.kind.isName = true := by
    simp only [namesArgument, Bool.and_eq_true] at h
    exact h.1.1
  rw [argumentName, current_bind, peek_bind]
  have hread := @identifier_complete .argumentName [n] _ ts (.token hname) trivial
  rw [← hread]
  exact congrFun (if_pos h) _

theorem argumentName_of_not_namesArgument
    (h : namesArgument ts.current.kind ts.peek.kind = false) : argumentName ts = .ok [] ts := by
  rw [argumentName, current_bind, peek_bind]
  exact congrFun (if_neg (Bool.eq_false_iff.1 h)) _

/-- The name, the type and the default of an argument are decided by one token at a time, although
two are looked at to see whether there is a name. -/
theorem argumentRest_predictive {mode : ArgumentMode} :
    Predictive (do
      let name ← argumentName
      let type ← type
      let default ← defaultClause
      return { mode, name, type, default } : Parser Argument) ArgumentRest := by
  intro ts
  cases hnames : namesArgument ts.current.kind ts.peek.kind with
  | true =>
    have hboth := hnames
    simp only [namesArgument, Bool.and_eq_true, Option.isNone_iff_eq_none] at hboth
    obtain ⟨⟨hfirst, hsecond⟩, hwords⟩ := hboth
    have hne := kind_ne_eof (·.isName = true) hfirst (by decide)
    have hrest := @typeAndDefault_predictive ts.advance mode (unquote ts.current.text)
      (fun t => twoWordType? ts.current.kind t.kind = none) hwords
      ⟨[ts.peek], phrases_typeName hsecond, by simpa using hwords⟩
    -- the name is taken after a look at the first token of the type
    refine hrest.cons (Tokens.eq_prepend_of_current_ne_eof hne) (fun us hus => ?_) ?_
    · refine bind_of_eq_ok (argumentName_of_namesArgument ?_)
      rw [hus]
      exact hnames
    · rintro _ ⟨x, y, rfl, ⟨⟨type, hx⟩, hhead⟩, hy⟩
      refine ⟨ts.current :: x, y, _, type, rfl, .named hfirst hx (fun t ht => ?_), hy⟩
      exact twoWordType?_eq_none_iff.1 (hhead t ht)
  | false =>
    have hrest := @typeAndDefault_predictive ts mode [] (fun _ => True) trivial
      ⟨[sample .identifier], phrases_typeName rfl, fun _ _ => trivial⟩
    refine PredictiveAt.mono (hrest.lookahead (fun us hcurrent hpeek => ?_) ?_) ?_
    · refine bind_of_eq_ok (argumentName_of_not_namesArgument ?_)
      rwa [hcurrent, hpeek]
    · by_cases hfirst : ts.current.kind.isName = true
      -- a name before a closing parenthesis is a type that the parser succeeds on
      · let close : Tokens := ⟨[sample .rightParen], {}⟩
        obtain ⟨type, htype⟩ := phrases_typeName hfirst
        have hrun := @argumentRest_complete close mode [ts.current] [] [] type []
          (.unnamed htype) .none (by decide)
        have hunnamed : argumentName (close.prepend [ts.current]) =
            .ok [] (close.prepend [ts.current]) := by
          refine argumentName_of_not_namesArgument ?_
          show (ts.current.kind.isName && false && _) = false
          rw [Bool.and_false, Bool.false_and]
        rw [List.append_nil, bind_of_eq_ok hunnamed] at hrun
        exact .inr ⟨close.prepend [ts.current], _, close, rfl, hrun,
          ne_prepend_cons close ts.current []⟩
      · refine .inl fun us hus => bind_of_eq_ok (argumentName_of_not_namesArgument ?_)
        rw [namesArgument, hus, Bool.eq_false_iff.2 hfirst, Bool.false_and, Bool.false_and]
    · rintro _ ⟨x, y, rfl, ⟨⟨type, hx⟩, -⟩, hy⟩
      exact ⟨x, y, [], type, rfl, .unnamed hx, hy⟩

/-- The words for modes are not reserved, so that each is also a type. -/
theorem ModeWord.isName {k : Kind} {mode : ArgumentMode} (h : ModeWord k mode) :
    k.isName = true := by
  cases h <;> rfl

/-- One token alone is not a mode before a name. -/
theorem not_startsWithMode_singleton {t : Token} : ¬StartsWithMode [t] := nofun

/-- What follows a mode is an argument without one, if it does not begin with a mode itself. -/
theorem phrases_unmarked {w : List Token} (hw : ArgumentRest w) (hmode : ¬StartsWithMode w) :
    Phrases (FormalArgument true) w := by
  obtain ⟨x, y, name, type, rfl, hx, value, hy⟩ := hw
  refine ⟨_, .unmarked hx hy fun _ hstarts => hmode ?_⟩
  cases hstarts with
  | intro mark hname => exact ⟨mark, hname⟩

/-- Tokens that begin what follows a mode also begin an argument without one, unless they are
themselves a mode before a name. -/
theorem viable_unmarked {v : List Token} (hv : Viable ArgumentRest v)
    (hmode : ¬StartsWithMode v) : Viable (Phrases (FormalArgument true)) v := by
  match v with
  | [] =>
    exact ⟨[sample .identifier],
      phrases_unmarked (argumentRest_of_isName rfl) not_startsWithMode_singleton⟩
  | [t] =>
    by_cases hword : ∃ mode, ModeWord t.kind mode
    · -- a mode alone is a type, and a name after it would make it a mode
      obtain ⟨mode, hword⟩ := hword
      exact ⟨[], phrases_unmarked (argumentRest_of_isName hword.isName)
        not_startsWithMode_singleton⟩
    · obtain ⟨w, hw⟩ := hv
      refine ⟨w, phrases_unmarked hw ?_⟩
      rintro ⟨mark, -⟩
      exact hword ⟨_, mark⟩
  | t :: s :: v =>
    obtain ⟨w, hw⟩ := hv
    refine ⟨w, phrases_unmarked hw ?_⟩
    rintro ⟨mark, hname⟩
    exact hmode ⟨mark, hname⟩

theorem argumentMode_of_isMode {m : Token} {mode : ArgumentMode}
    (hmode : argumentMode? m.kind = some mode) (hname : ts.current.kind.isName = true) :
    argumentMode (ts.prepend [m]) = .ok mode ts := by
  have hcurrent : argumentMode? (ts.prepend [m]).current.kind = some mode := hmode
  rw [argumentMode, current_bind, peek_bind, hcurrent]
  exact congrFun (if_pos hname) _

theorem argumentMode_of_not_isMode
    (h : ((argumentMode? ts.current.kind).isSome && ts.peek.kind.isName) = false) :
    argumentMode ts = .ok .unmarked ts := by
  rw [argumentMode, current_bind, peek_bind]
  cases hmode : argumentMode? ts.current.kind with
  | none => rfl
  | some mode =>
    rw [hmode] at h
    exact congrFun (if_neg (by simpa using h)) _

/-- An argument is decided by one token at a time. -/
theorem argument_predictive {modes : Bool} :
    Predictive (argument modes) (Phrases (FormalArgument modes)) := by
  intro ts
  cases modes with
  | false =>
    refine (@argumentRest_predictive .unmarked ts).mono ?_
    rintro _ ⟨x, y, name, type, rfl, hx, value, hy⟩
    exact ⟨_, .unmarked hx hy nofun⟩
  | true =>
    -- a word for a mode is one only before a name, so two tokens are looked at
    cases hfirst : (argumentMode? ts.current.kind).isSome && ts.peek.kind.isName with
    | true =>
      rw [Bool.and_eq_true, Option.isSome_iff_exists] at hfirst
      obtain ⟨⟨mode, hmode⟩, hname⟩ := hfirst
      have hne := kind_ne_eof (argumentMode? · = some mode) hmode (by simp [argumentMode?])
      refine (@argumentRest_predictive mode ts.advance).cons
        (Tokens.eq_prepend_of_current_ne_eof hne) (fun us hus => ?_) ?_
      · exact bind_of_eq_ok (argumentMode_of_isMode hmode (by rw [hus]; exact hname))
      · rintro _ ⟨x, y, name, type, rfl, hx, value, hy⟩
        exact ⟨_, .marked rfl (argumentMode?_eq_some_iff.1 hmode) hx hy⟩
    | false =>
      -- without a mode: what is taken is the rest of an argument, and it does not begin with one
      have hargument : PredictiveAt (argument true) ArgumentRest ts := by
        refine (@argumentRest_predictive .unmarked ts).lookahead (fun us hcurrent hpeek => ?_) ?_
        · refine bind_of_eq_ok (argumentMode_of_not_isMode ?_)
          rwa [hcurrent, hpeek]
        · cases hmode : argumentMode? ts.current.kind with
          | none =>
            refine .inl fun us hus => bind_of_eq_ok (argumentMode_of_not_isMode ?_)
            rw [hus, hmode]
            rfl
          | some mode =>
            let close : Tokens := ⟨[sample .rightParen], {}⟩
            obtain ⟨type, htype⟩ := phrases_typeName (argumentMode?_eq_some_iff.1 hmode).isName
            have hrun := @argumentRest_complete close .unmarked [ts.current] [] [] type []
              (.unnamed htype) .none (by decide)
            exact .inr ⟨close.prepend [ts.current], _, close, rfl, hrun,
              ne_prepend_cons close ts.current []⟩
      refine hargument.imp (fun v rest hts hv => phrases_unmarked hv ?_)
        fun v rest hts hv => viable_unmarked hv ?_
      · subst hts
        exact not_startsWithMode hfirst
      · subst hts
        exact not_startsWithMode hfirst

theorem arguments_predictive {modes : Bool} :
    Predictive (arguments modes) (Phrases (Separated .comma (FormalArgument modes))) :=
  commaSeparated_predictive argument_predictive.catchUp

/-! ### Functions -/

/-- One of two tokens. -/
theorem either_predictive {k k' : Kind} {expected : Expectation} (hk : k ≠ .eof) (hk' : k' ≠ .eof) :
    Predictive (do
      unless ← accept k do
        unless ← accept k' do
          unexpected expected : Parser Unit) (fun w => Spells [k] w ∨ Spells [k'] w) := by
  intro ts
  refine accept_bind_predictive hk (M := (· = [])) (pure_predictive rfl) (fun _ => ?_) ?_
  · refine accept_bind_predictive hk' (M := (· = [])) (pure_predictive rfl) (fun _ => ?_) ?_
    · exact unexpected_predictive (L := fun w => Spells [k] w ∨ Spells [k'] w)
        ⟨[sample k], .inl rfl⟩ ts
    · rintro t v ht rfl
      exact .inr (spells_cons.2 ⟨ht, rfl⟩)
  · rintro t v ht rfl
    exact .inl (spells_cons.2 ⟨ht, rfl⟩)

/-- Whose rights a function has is decided by one word. -/
theorem securityKind_predictive : Predictive securityKind
    (fun w => ∃ k ∈ [Keyword.invoker, .definer], Spells [.keyword k] w) := by
  intro ts
  refine (either_predictive (by decide) (by decide) ts).mono ?_
  rintro w (h | h)
  · exact ⟨_, by decide, h⟩
  · exact ⟨_, by decide, h⟩

/-- An option of a function is decided by its first word and then by one token at a time. -/
theorem functionOption_predictive (hs : startsOption ts.current.kind = true) :
    PredictiveAt functionOption (Phrases FunctionOption) ts := by
  obtain ⟨k, hkind, hk⟩ := exists_of_startsOption hs
  refine current_bind_predictive (next_bind_predictive (by simp [hkind])
    (M := fun w => OptionKinds (.keyword k :: w.map (·.kind))) ?_ fun w hw => ⟨(), ?_⟩)
  -- the words after the first, which decides how they are read
  · rw [hkind]
    rcases hk with rfl | hword | rfl | rfl | rfl | rfl | rfl | hnumber | rfl
    · intro ts
      refine accept_bind_predictive (by decide) (M := (· = [])) (pure_predictive rfl)
        (fun _ => ?_) ?_
      · refine (identifier_predictive.discard ts).mono ?_
        rintro _ ⟨_, ⟨hname⟩⟩
        exact .language (.inl hname)
      · rintro t v ht rfl
        exact .language (.inr ht)
    · have hpure := pure_predictive (a := ())
        (L := fun w => OptionKinds (.keyword k :: w.map (·.kind))) (.word hword)
      simp only [List.mem_cons, List.not_mem_nil, or_false] at hword
      rcases hword with rfl | rfl | rfl | rfl | rfl | rfl <;> exact hpure
    · refine fun ts => (expect_predictive (by decide) ts).mono fun w hw => ?_
      rw [hw]
      exact .notLeakproof
    · refine fun ts => (expectAll_predictive (by decide) ts).mono fun w hw => ?_
      rw [hw]
      exact .called
    · refine fun ts => (expectAll_predictive (by decide) ts).mono fun w hw => ?_
      rw [hw]
      exact .returnsNull
    · refine fun ts => (expect_predictive (by decide) ts).bind (fun _ => securityKind_predictive)
        ⟨[sample (.keyword .invoker)], _, by decide, rfl⟩ ?_
      rintro w v hw ⟨k, hk, hv⟩
      rw [List.map_append, hw, hv]
      exact .externalSecurity hk
    · refine fun ts => (securityKind_predictive ts).mono ?_
      rintro w ⟨k, hk, hw⟩
      rw [hw]
      exact .security hk
    · have heither : Predictive (do
          unless ← accept .integer do
            unless ← accept .float do
              unexpected .number : Parser Unit)
          (fun w => OptionKinds (.keyword k :: w.map (·.kind))) := by
        refine fun ts => (either_predictive (by decide) (by decide) ts).mono ?_
        rintro w (hw | hw)
        · rw [hw]
          exact .number hnumber (by decide)
        · rw [hw]
          exact .number hnumber (by decide)
      simp only [List.mem_cons, List.not_mem_nil, or_false] at hnumber
      rcases hnumber with rfl | rfl <;> exact heither
    · intro ts
      refine ((expect_predictive (by decide)).catchUp ts).bind
        (M := fun w => w = [] ∨ Spells [.comma, .string] w) (fun _ ts => ?_) ⟨[], .inl rfl⟩ ?_
      · refine accept_bind_predictive (by decide) (expect_predictive (by decide)) (fun _ => ?_) ?_
        · exact pure_predictive (L := fun w => w = [] ∨ Spells [.comma, .string] w) (.inl rfl) ts
        · exact fun t v ht hv => .inr (spells_cons.2 ⟨ht, hv⟩)
      · rintro w v hw (rfl | hv)
        · rw [List.append_nil, hw]
          exact .body
        · rw [List.map_append, hw, hv]
          exact .linkedBody
  · rwa [FunctionOption, List.map_cons, hkind]

theorem functionArguments_predictive :
    Predictive functionArguments (Phrases FunctionArguments) := by
  intro ts
  refine current_bind_predictive ?_
  split
  · exact pure_predictive (L := Phrases FunctionArguments) ⟨_, .none⟩ ts
  · exact (arguments_predictive ts).mono fun w ⟨args, hw⟩ => ⟨args, .some hw⟩

/-- What follows `RETURNS` where it is not the word of an option. -/
def SetOrType (w : List Token) : Prop :=
  (∃ s v, w = s :: v ∧ s.kind = .keyword .setof ∧ Phrases TypeName v) ∨
    Phrases TypeName w ∧ ∀ t ∈ w.head?, t.kind ≠ .keyword .setof

/-- What a function gives is decided by whether `SETOF` is in front. -/
theorem setOrType_predictive : Predictive (do
    let setOf ← accept (.keyword .setof)
    let type ← type
    return some { setOf, type } : Parser (Option ReturnClause)) SetOrType := by
  intro ts
  have htype : ∀ setOf, Predictive (do
      let type ← type
      return some { setOf, type } : Parser (Option ReturnClause)) (Phrases TypeName) :=
    fun setOf ts => (type_predictive ts).bind_pure fun _ hw => hw
  refine accept_bind_predictive (by decide) (htype true) (fun hnot => ?_)
    fun t v ht hv => .inl ⟨t, v, rfl, ht, hv⟩
  refine ((htype false ts).starting (fun t => t.kind ≠ .keyword .setof) hnot
    ⟨[sample .identifier], phrases_typeName rfl, by simp [sample]⟩).mono fun w hw => .inr hw

/-- What follows the arguments of a function. -/
def ResultAndOptions (w : List Token) : Prop :=
  ∃ x y, w = x ++ y ∧ Phrases ResultClause x ∧ Phrases (Repeated FunctionOption) y

theorem returnClause_of_returns {r : Token} (hr : r.kind = .keyword .returns)
    (hnull : ts.current.kind ≠ .keyword .null) :
    returnClause (ts.prepend [r]) = (do
      let setOf ← accept (.keyword .setof)
      let type ← type
      return some { setOf, type } : Parser (Option ReturnClause)) ts := by
  rw [returnClause, current_bind, peek_bind]
  refine congrFun (if_pos ?_) _
  simp only [Bool.and_eq_true, decide_eq_true_eq]
  exact ⟨hr, hnull⟩

/-- Without `RETURNS`, or with it before `NULL`, no result is declared. -/
theorem returnClause_of_not_returns
    (h : ts.current.kind = .keyword .returns → ts.peek.kind = .keyword .null) :
    returnClause ts = .ok none ts := by
  rw [returnClause, current_bind, peek_bind]
  refine congrFun (if_neg ?_) _
  simp only [Bool.and_eq_true, decide_eq_true_eq]
  exact fun hboth => hboth.2 (h hboth.1)

/-- The result of a function is told from the option `RETURNS NULL ON NULL INPUT` by two tokens, but
in either case the first of them is taken. -/
theorem resultAndOptions_predictive {α : Type} {f : Option ReturnClause → α} :
    Predictive (do
      let returns ← returnClause
      discard <| many startsOption functionOption
      return f returns : Parser α) ResultAndOptions := by
  intro ts
  have hoptions : ∀ returns, Predictive (do
      discard <| many startsOption functionOption
      return f returns : Parser α) (Phrases (Repeated FunctionOption)) := by
    intro returns ts
    exact ((many_predictive fun ts hs => functionOption_predictive hs).discard ts).bind_pure
      fun _ hw => hw
  by_cases hreturns : ts.current.kind = .keyword .returns ∧ ts.peek.kind ≠ .keyword .null
  · obtain ⟨hmark, hnull⟩ := hreturns
    have hrest := (setOrType_predictive ts.advance).bind hoptions ⟨[], [], .nil⟩
      (N := fun w => ∃ x y, w = x ++ y ∧ SetOrType x ∧ Phrases (Repeated FunctionOption) y)
      fun w v hw hv => ⟨w, v, rfl, hw, hv⟩
    refine hrest.cons (Tokens.eq_prepend_of_current_ne_eof (by simp [hmark])) (fun us hus => ?_) ?_
    · refine bind_eq_bind (returnClause_of_returns hmark ?_)
      rw [hus]
      exact hnull
    · rintro _ ⟨x, y, rfl, ⟨s, v, rfl, hs, type, hv⟩ | ⟨⟨type, hx⟩, hset⟩, hy⟩
      · exact ⟨ts.current :: s :: v, y, rfl, ⟨_, .set hmark hs hv⟩, hy⟩
      · exact ⟨ts.current :: x, y, rfl, ⟨_, .single hmark hx hset⟩, hy⟩
  · rw [not_and, Classical.not_not] at hreturns
    refine PredictiveAt.mono ((hoptions none ts).lookahead (fun us hcurrent hpeek => ?_) ?_)
      fun w hw => ⟨[], w, rfl, ⟨_, .none⟩, hw⟩
    · refine bind_of_eq_ok (returnClause_of_not_returns ?_)
      rwa [hcurrent, hpeek]
    · by_cases hmark : ts.current.kind = .keyword .returns
      -- the option is something that begins with `RETURNS` and is read
      · let close : Tokens := ⟨[sample .semicolon], {}⟩
        let words := ts.current ::
          [Keyword.null, .on, .null, .input].map fun k => sample (.keyword k)
        have hwords : Repeated FunctionOption (words ++ []) [()] := by
          refine .cons ?_ .nil
          show OptionKinds (ts.current.kind :: _)
          rw [hmark]
          exact .returnsNull
        have hread := @options_complete _ _ close hwords rfl
        rw [List.append_nil] at hread
        have hdrop : (discard (many startsOption functionOption) : Parser Unit)
            (close.prepend words) = .ok ⟨⟩ close := discard_eq_ok.2 ⟨_, hread⟩
        exact .inr ⟨close.prepend words, f none, close, rfl, bind_of_eq_ok hdrop,
          ne_prepend_cons close _ _⟩
      · refine .inl fun us hus => bind_of_eq_ok (returnClause_of_not_returns ?_)
        rw [hus]
        exact fun h => absurd h hmark

/-- A name and arguments, up to the closing parenthesis. -/
def Signature (L M : List Token → Prop) (u : List Token) : Prop :=
  ∃ w l v, u = w ++ l :: v ∧ L w ∧ l.kind = .leftParen ∧ M v

/-- The name and the arguments of a function are decided by one token at a time. -/
theorem functionSignature_predictive : Predictive functionSignature
    (Signature (Phrases QualifiedName) (Phrases FunctionArguments)) := by
  intro ts
  have hargs : ∀ name, Predictive (do
      let args ← functionArguments
      return (name, args) : Parser (Text × List Argument)) (Phrases FunctionArguments) :=
    fun name ts => (functionArguments_predictive ts).bind_pure fun _ hw => hw
  refine (qualifiedName_predictive.before (by decide) ts).bind hargs ⟨[], _, .none⟩ ?_
  rintro _ v ⟨w, l, rfl, hw, hl⟩ hv
  exact ⟨w, l, v, by simp, hw, hl, hv⟩

/-- What follows the word `FUNCTION`. -/
def FunctionRest (w : List Token) : Prop :=
  ∀ f : Token, f.kind = .keyword .function → Phrases FunctionPhrase (f :: w)

theorem functionRest_of_signature {u z : List Token}
    (hu : Followed (Signature (Phrases QualifiedName) (Phrases FunctionArguments)) .rightParen u)
    (hz : ResultAndOptions z) : FunctionRest (u ++ z) := by
  obtain ⟨_, r, rfl, ⟨w, l, v, rfl, ⟨name, hw⟩, hl, args, hv⟩, hr⟩ := hu
  obtain ⟨x, y, rfl, ⟨returns, hx⟩, units, hy⟩ := hz
  intro f hf
  have hphrase := FunctionPhrase.intro hf hw hl hv hr hx hy
  exact ⟨_, by simpa using hphrase⟩

/-- There is something to follow the word `FUNCTION`: a name and empty parentheses. -/
theorem exists_functionRest : ∃ w, FunctionRest w :=
  ⟨_, functionRest_of_signature ⟨_, sample .rightParen, rfl, ⟨_, sample .leftParen, [], rfl,
    phrases_qualifiedName (t := sample .identifier) rfl, rfl, _, .none⟩, rfl⟩
    ⟨[], [], rfl, ⟨_, .none⟩, _, .nil⟩⟩

/-- A function is decided by one token at a time. -/
theorem function_predictive : Predictive function (Phrases FunctionPhrase) := by
  intro ts
  refine (expect_predictive (by decide) ts).bind (M := FunctionRest) (fun _ ts => ?_)
    exists_functionRest ?_
  · exact (functionSignature_predictive.before (by decide) ts).bind
      (fun _ => resultAndOptions_predictive) ⟨[], [], [], rfl, ⟨_, .none⟩, _, .nil⟩
      fun _ _ => functionRest_of_signature
  · intro w v hw hv
    obtain ⟨f, rfl, hf⟩ := List.map_eq_singleton_iff.1 hw
    exact hv f hf

/-! ### Aggregates -/

theorem exists_aggregateSetting : ∃ w, Phrases AggregateSetting w := by
  obtain ⟨name, hname⟩ := phrases_qualifiedName (t := sample .identifier) rfl
  exact ⟨_, _, .function (k := sample (.keyword .sfunc)) (e := sample .equals) .sfunc rfl hname⟩

/-- An option of an aggregate is decided by its first word, which tells what has to follow the
equals sign. -/
theorem aggregateOption_predictive : Predictive aggregateOption (Phrases AggregateSetting) := by
  intro ts
  have hequals : Predictive (expect .equals) (Spells [.equals]) := expect_predictive (by decide)
  have hname : ∃ w, Phrases QualifiedName w :=
    ⟨_, phrases_qualifiedName (t := sample .identifier) rfl⟩
  -- each option is a word, an equals sign and a phrase of its own
  have hvalue : ∀ {G : List Token → Text → Prop} {mark : Parser Unit} {value : Parser Text}
      {o : Text → AggregateOption}, Predictive mark (Spells [.equals]) →
      Predictive value (Phrases G) → (∃ w, Phrases G w) →
      Predictive (do
        mark
        let value ← value
        return o value : Parser AggregateOption)
        (fun w => ∃ e v, w = e :: v ∧ e.kind = .equals ∧ Phrases G v) := by
    intro G mark value o hmark hvalue hG ts
    refine (hmark ts).bind (fun _ ts => (hvalue ts).bind_pure fun _ hw => hw) hG
      fun w v hw hv => ?_
    obtain ⟨e, rfl, he⟩ := List.map_eq_singleton_iff.1 hw
    exact ⟨e, v, rfl, he, hv⟩
  refine current_bind_predictive ?_
  split
  · rename_i kind hkind
    have hne := kind_ne_eof (functionOptionKind? · = some kind) hkind
      (by simp [functionOptionKind?])
    refine next_bind_predictive hne (hvalue hequals.catchUp qualifiedName_predictive hname) ?_
    rintro _ ⟨e, v, rfl, he, value, hv⟩
    exact ⟨_, .function (functionOptionKind?_eq_some_iff.1 hkind) he hv⟩
  · split
    · rename_i hmark
      refine next_bind_predictive (by simp [hmark])
        (hvalue hequals type_predictive ⟨_, phrases_typeName (t := sample .identifier) rfl⟩) ?_
      rintro _ ⟨e, v, rfl, he, value, hv⟩
      exact ⟨_, .stateType hmark he hv⟩
    · rename_i hmark
      refine next_bind_predictive (by simp [hmark])
        (hvalue hequals expression_predictive phrases_expression) ?_
      rintro _ ⟨e, v, rfl, he, value, hv⟩
      exact ⟨_, .firstState hmark he hv⟩
    · exact fail_predictive (fun _ => rfl) exists_aggregateSetting ts
    · exact fail_predictive (fun _ => rfl) exists_aggregateSetting ts

/-- The words before the arguments of an aggregate, and its name. -/
def AggregateHead (u : List Token) : Prop :=
  ∃ x w, u = x ++ w ∧ AggregateWords x ∧ Phrases QualifiedName w

/-- The words before the name of an aggregate are decided by the first of them. -/
theorem aggregateName_predictive : Predictive aggregateName AggregateHead := by
  intro ts
  have hsample := phrases_qualifiedName (t := sample .identifier) rfl
  have hrest : Predictive (do
      (expect (.keyword .aggregate)).catchUp Tokens.dropName
      qualifiedName .aggregateName : Parser Text)
      (fun u => ∃ x w, u = x ++ w ∧ Spells [.keyword .aggregate] x ∧ Phrases QualifiedName w) :=
    fun ts => ((expect_predictive (by decide)).catchUp ts).bind
      (fun _ => qualifiedName_predictive) ⟨_, hsample⟩ fun x w hx hw => ⟨x, w, rfl, hx, hw⟩
  refine ((accept_predictive (by decide)).discard ts).bind (fun _ => hrest)
    ⟨_, [sample (.keyword .aggregate)], _, rfl, rfl, hsample⟩ ?_
  rintro _ _ (rfl | hordered) ⟨x, w, rfl, hx, hw⟩
  · exact ⟨x, w, rfl, .plain hx, hw⟩
  · obtain ⟨o, rfl, ho⟩ := List.map_eq_singleton_iff.1 hordered
    exact ⟨o :: x, w, rfl, .ordered (spells_cons.2 ⟨ho, hx⟩), hw⟩

theorem aggregateArguments_predictive : Predictive aggregateArguments
    (fun w => ∃ wildcard args, AggregateArguments w wildcard args) := by
  intro ts
  refine accept_bind_predictive (by decide) (M := (· = [])) (pure_predictive rfl) (fun _ => ?_) ?_
  · exact (arguments_predictive ts).bind_pure fun w ⟨args, hw⟩ => ⟨false, args, .some hw⟩
  · rintro s v hs rfl
    exact ⟨true, [], .star hs⟩

theorem aggregateSignature_predictive : Predictive aggregateSignature
    (Signature AggregateHead fun w => ∃ wildcard args, AggregateArguments w wildcard args) := by
  intro ts
  refine ((aggregateName_predictive.before (by decide)).catchUp ts).bind
    (fun name ts => (aggregateArguments_predictive ts).bind_pure fun _ hw => hw)
    ⟨[sample .star], _, _, .star rfl⟩ ?_
  rintro _ v ⟨w, l, rfl, hw, hl⟩ hv
  exact ⟨w, l, v, by simp, hw, hl, hv⟩

/-- An aggregate is decided by one token at a time. -/
theorem aggregate_predictive : Predictive aggregate (Phrases AggregatePhrase) := by
  have hbody : Predictive aggregateBody (fun u => ∃ v y, u = v ++ y ∧
      Followed (Followed (Signature AggregateHead fun w =>
        ∃ wildcard args, AggregateArguments w wildcard args) .rightParen) .leftParen v ∧
      Phrases (Separated .comma AggregateSetting) y) := by
    intro ts
    obtain ⟨w, setting, hw⟩ := exists_aggregateSetting
    refine ((aggregateSignature_predictive.before (by decide)).before (by decide) ts).bind
      (fun _ ts => (commaSeparated_predictive aggregateOption_predictive ts).bind_pure
        fun _ hw => hw) ⟨w, _, .one hw⟩ fun v y hv hy => ⟨v, y, rfl, hv, hy⟩
  intro ts
  refine (hbody.before (by decide) ts).mono ?_
  -- the parts are taken from the inside out, as the parentheses are nested
  rintro _ ⟨_, r', rfl, ⟨_, y, rfl, ⟨_, l', rfl, ⟨_, r, rfl, hsignature, hr⟩, hl'⟩, options, hy⟩,
    hr'⟩
  obtain ⟨_, l, v, rfl, ⟨x, w, rfl, hx, name, hw⟩, hl, wildcard, args, hv⟩ := hsignature
  have hphrase := AggregatePhrase.intro hx hw hl hv hr hl' hy hr'
  exact ⟨_, by simpa using hphrase⟩

/-! ### Statements -/

theorem exists_declared : ∃ w, Phrases Declared w := by
  obtain ⟨w, hw⟩ := exists_functionRest
  obtain ⟨d, hd⟩ := hw (sample (.keyword .function)) rfl
  exact ⟨_, _, .function hd⟩

/-- Whether a function or an aggregate is declared is decided by the first word. -/
theorem declaration_predictive : Predictive declaration (Phrases Declared) := by
  intro ts
  have haggregate := (aggregate_predictive ts).bind_pure (f := StatementBody.aggregate)
    fun w ⟨d, hd⟩ => (⟨_, .aggregate hd⟩ : Phrases Declared w)
  refine current_bind_predictive ?_
  split
  · exact (function_predictive ts).bind_pure fun w ⟨d, hd⟩ => ⟨_, .function hd⟩
  · exact haggregate
  · exact haggregate
  · exact unexpected_predictive exists_declared ts

/-- A declaration is decided by one token at a time, up to its semicolon. -/
theorem create_predictive : Predictive create (Phrases Sentence) := by
  intro ts
  have hrest : Predictive (do
      let body ← declaration
      expect .semicolon
      return body : Parser StatementBody) (Followed (Phrases Declared) .semicolon) := by
    intro ts
    refine (declaration_predictive ts).bind (M := Spells [.semicolon])
      (fun _ ts => (expect_predictive (by decide) ts).bind_pure fun _ hw => hw)
      ⟨[sample .semicolon], rfl⟩ fun w v hw hv => ?_
    obtain ⟨s, rfl, hs⟩ := List.map_eq_singleton_iff.1 hv
    exact ⟨w, s, rfl, hw, hs⟩
  obtain ⟨w, hw⟩ := exists_declared
  have hsample : Followed (Phrases Declared) .semicolon (w ++ [sample .semicolon]) :=
    ⟨w, _, rfl, hw, rfl⟩
  -- `OR REPLACE` or nothing, and the declaration
  refine (expect_predictive (by decide) ts).bind
    (M := fun u => ∃ x v, u = x ++ v ∧ (x = [] ∨ Spells [.keyword .or_, .keyword .replace] x) ∧
      Followed (Phrases Declared) .semicolon v)
    (fun _ ts => accept_bind_predictive (by decide)
      (fun ts => (expect_predictive (by decide) ts).bind (fun _ => hrest) ⟨_, hsample⟩
        (N := fun u => ∃ x v, u = x ++ v ∧ Spells [.keyword .replace] x ∧
          Followed (Phrases Declared) .semicolon v) fun x v hx hv => ⟨x, v, rfl, hx, hv⟩)
      (fun _ => ?_) ?_)
    ⟨_, [], _, rfl, .inl rfl, hsample⟩ ?_
  · exact (hrest ts).mono fun v hv => ⟨[], v, rfl, .inl rfl, hv⟩
  · rintro o _ ho ⟨x, v, rfl, hx, hv⟩
    exact ⟨o :: x, v, rfl, .inr (spells_cons.2 ⟨ho, hx⟩), hv⟩
  · rintro w _ hw ⟨x, _, rfl, hx, v, s, rfl, ⟨body, hv⟩, hs⟩
    have hwords : CreateWords (w ++ x) := by
      obtain ⟨c, rfl, hc⟩ := List.map_eq_singleton_iff.1 hw
      rcases hx with rfl | hx
      · exact .plain (spells_cons.2 ⟨hc, rfl⟩)
      · exact .orReplace (spells_cons.2 ⟨hc, hx⟩)
    exact ⟨body, by simpa using Sentence.intro hwords hv hs⟩

/-- A statement is decided by one token at a time. -/
theorem statementBody_predictive : Predictive statementBody (Phrases StatementPhrase) := by
  intro ts
  refine current_bind_predictive ?_
  split
  · rename_i h
    exact next_pure_predictive (by simp [h]) ⟨_, .empty h⟩
  · rename_i h
    exact next_pure_predictive (by simp [h]) ⟨_, .comment h⟩
  · rename_i h
    exact next_pure_predictive (by simp [h]) ⟨_, .newline h⟩
  · exact (create_predictive ts).mono fun w ⟨body, hw⟩ => ⟨body, .declaration hw⟩
  · exact fail_predictive (fun _ => rfl) ⟨[sample .semicolon], _, .empty rfl⟩ ts

end Grammar

end SqlStubs
