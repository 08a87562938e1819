import SqlStubs.Proofs.Grammar
import SqlStubs.Proofs.Parser.Run

/-!
# What is read follows the grammar

`create_sound`: whatever the parser of declarations reads is a sentence of the grammar in front of
the tokens that it leaves, and the value that it gives is the one read off the derivation;
`statementBody_sound` says the same of all statements.  There is one lemma for each nonterminal, and
each only uses those of the nonterminals below it.
-/

namespace SqlStubs

open SqlStubs.Parser

namespace Grammar

variable {α : Type} {ts rest : Tokens}

/-- Whatever `p` reads is a phrase of `G` in front of what it leaves. -/
def Sound (p : Parser α) (G : List Token → α → Prop) : Prop :=
  ∀ {ts rest : Tokens} {a : α}, p ts = .ok a rest → ∃ w, ts = rest.prepend w ∧ G w a

/-! ### Words

The tables that the parser uses hold the words of the grammar and no others. -/

/-- The types of two words are those of the grammar. -/
theorem twoWordType?_eq_some_iff {k k' : Kind} {name : Text} :
    twoWordType? k k' = some name ↔ TwoWords k k' name := by
  constructor
  · intro h
    unfold twoWordType? at h
    split at h <;> cases h <;> constructor
  · rintro ⟨⟩ <;> rfl

theorem twoWordType?_eq_none_iff {k k' : Kind} :
    twoWordType? k k' = none ↔ ∀ name, ¬TwoWords k k' name := by
  simp only [← twoWordType?_eq_some_iff, Option.eq_none_iff_forall_ne_some, ne_eq]

theorem timeType?_eq_some_iff {k : Kind} {name : Text} :
    timeType? k = some name ↔ TimeWord k name := by
  constructor
  · intro h
    unfold timeType? at h
    split at h <;> cases h <;> constructor
  · rintro ⟨⟩ <;> rfl

theorem timeType?_eq_none_iff {k : Kind} : timeType? k = none ↔ ∀ name, ¬TimeWord k name := by
  simp only [← timeType?_eq_some_iff, Option.eq_none_iff_forall_ne_some, ne_eq]

/-- The words for modes are those of the grammar. -/
theorem argumentMode?_eq_some_iff {k : Kind} {mode : ArgumentMode} :
    argumentMode? k = some mode ↔ ModeWord k mode := by
  constructor
  · intro h
    unfold argumentMode? at h
    split at h <;> cases h <;> constructor
  · rintro ⟨⟩ <;> rfl

/-- The words for options that are functions are those of the grammar. -/
theorem functionOptionKind?_eq_some_iff {k : Kind} {kind : OptionKind} :
    functionOptionKind? k = some kind ↔ FunctionWord k kind := by
  constructor
  · intro h
    unfold functionOptionKind? at h
    split at h <;> cases h <;> constructor
  · rintro ⟨⟩ <;> rfl

/-! ### Single tokens -/

@[simp] theorem spells_nil {w : List Token} : Spells [] w ↔ w = [] := by
  simp [Spells]

@[simp] theorem spells_cons {kind : Kind} {kinds : List Kind} {t : Token} {w : List Token} :
    Spells (kind :: kinds) (t :: w) ↔ t.kind = kind ∧ Spells kinds w := by
  simp [Spells]

/-- A token that is not the end is in front of what is left after it. -/
theorem exists_prepend_of_advance {kind : Kind} (hk : kind ≠ .eof) (h : ts.current.kind = kind)
    (hr : ts.advance = rest) : ∃ t, ts = rest.prepend [t] ∧ t.kind = kind := by
  refine ⟨ts.current, ?_, h⟩
  rw [← hr]
  exact Tokens.eq_prepend_of_current_ne_eof (h ▸ hk)

/-- The first token is taken, if it is known not to be the end. -/
theorem next_pure_sound (P : Kind → Prop) {a b : α} (hP : P ts.current.kind) (heof : ¬P .eof)
    (h : (do next; return a : Parser α) ts = .ok b rest) :
    ts = rest.prepend [ts.current] ∧ a = b := by
  simp only [bind_eq_ok, next_eq_ok, pure_eq_ok] at h
  obtain ⟨_, _, rfl, rfl, rfl⟩ := h
  exact ⟨Tokens.eq_prepend_of_kind P hP heof, rfl⟩

/-- An optional token is there and taken, or it is not there and nothing is taken. -/
theorem accept_bind_sound {kind : Kind} {f : Bool → Parser α} {a : α} (hk : kind ≠ .eof)
    (h : (accept kind >>= f) ts = .ok a rest) :
    (∃ t mid, ts = mid.prepend [t] ∧ t.kind = kind ∧ f true mid = .ok a rest) ∨
      ts.current.kind ≠ kind ∧ f false ts = .ok a rest := by
  rw [bind_eq_ok] at h
  obtain ⟨b, mid, ha, hf⟩ := h
  cases b with
  | true =>
    obtain ⟨hc, hadv⟩ := accept_eq_ok_true.1 ha
    obtain ⟨t, rfl, ht⟩ := exists_prepend_of_advance hk hc hadv
    exact .inl ⟨t, mid, rfl, ht, hf⟩
  | false =>
    obtain ⟨hc, rfl⟩ := accept_eq_ok_false.1 ha
    exact .inr ⟨hc, hf⟩

/-- A token that has to be there is in front of what is left. -/
theorem expect_sound {kind : Kind} {u : Unit} (hk : kind ≠ .eof) (h : expect kind ts = .ok u rest) :
    ∃ t, ts = rest.prepend [t] ∧ t.kind = kind := by
  obtain ⟨hc, hr⟩ := expect_eq_ok.1 h
  exact exists_prepend_of_advance hk hc hr

/-- Several tokens that have to be there are in front of what is left, in their order. -/
theorem expectAll_sound {kinds : List Kind} {u : PUnit} (hk : .eof ∉ kinds)
    (h : expectAll kinds ts = .ok u rest) : ∃ w, ts = rest.prepend w ∧ Spells kinds w := by
  induction kinds generalizing ts with
  | nil =>
    obtain ⟨-, rfl⟩ := pure_eq_ok.1 h
    exact ⟨[], rfl, rfl⟩
  | cons kind kinds ih =>
    rw [List.mem_cons, not_or] at hk
    obtain ⟨_, mid, he, hr⟩ := bind_eq_ok.1 h
    obtain ⟨t, rfl, ht⟩ := expect_sound (Ne.symm hk.1) he
    obtain ⟨w, rfl, hw⟩ := ih hk.2 hr
    exact ⟨t :: w, rfl, spells_cons.2 ⟨ht, hw⟩⟩

/-! ### Repetition -/

/-- Reading on as long as the next token can begin an item gives a repetition.  Each item may
count on its first token. -/
theorem many_sound {starts : Kind → Bool} {item : Parser α} {G : List Token → α → Prop}
    (hitem : ∀ {ts rest a}, starts ts.current.kind = true → item ts = .ok a rest →
      ∃ w, ts = rest.prepend w ∧ G w a) : Sound (many starts item) (Repeated G) := by
  intro ts rest as h
  fun_induction many starts item ts generalizing rest as with
  | case1 ts hs e mid he => cases h
  | case2 ts hs a mid ha hlt as' rest' hm ih =>
    cases h
    obtain ⟨w, rfl, hw⟩ := hitem hs ha
    obtain ⟨v, rfl, hv⟩ := ih hm
    exact ⟨w ++ v, Tokens.prepend_prepend .., .cons hw hv⟩
  | case3 ts hs a mid ha hlt e rest' hm ih => cases h
  | case4 ts hs a mid ha hlt =>
    -- the loop stops at an item that took nothing
    cases h
    obtain ⟨w, rfl, hw⟩ := hitem hs ha
    exact ⟨w, rfl, by simpa using Repeated.cons hw .nil⟩
  | case5 ts hs =>
    cases h
    exact ⟨[], rfl, .nil⟩

/-- An item and further ones with their marks are a separated list. -/
theorem Separated.of_repeated {separator : Kind} {G : List Token → α → Prop} {w v : List Token}
    {a : α} {as : List α} (hw : G w a)
    (hv : Repeated (fun v b => ∃ s u, v = s :: u ∧ s.kind = separator ∧ G u b) v as) :
    Separated separator G (w ++ v) (a :: as) := by
  induction hv generalizing w a with
  | nil => simpa using Separated.one hw
  | cons hfirst _ ih =>
    obtain ⟨s, u, rfl, hs, hu⟩ := hfirst
    exact .more hw hs (ih hu)

/-- The loop of a separated list: a mark, and an item after it. -/
theorem many_next_sound {separator : Kind} {item : Parser α} {G : List Token → α → Prop}
    (hk : separator ≠ .eof) (hitem : Sound item G) :
    Sound (many (· = separator) do next; item)
      (Repeated fun v b => ∃ s u, v = s :: u ∧ s.kind = separator ∧ G u b) := by
  refine many_sound fun {ts rest a} hs h => ?_
  simp only [bind_eq_ok, next_eq_ok] at h
  obtain ⟨_, mid, hmid, ha⟩ := h
  obtain ⟨s, rfl, hkind⟩ := exists_prepend_of_advance hk (of_decide_eq_true hs) hmid
  obtain ⟨w, rfl, hw⟩ := hitem ha
  exact ⟨s :: w, rfl, s, w, rfl, hkind, hw⟩

/-- An item and those after commas are a list. -/
theorem commaSeparated_sound {item : Parser α} {G : List Token → α → Prop} (hitem : Sound item G) :
    Sound (commaSeparated item) (Separated .comma G) := by
  intro ts rest as h
  simp only [commaSeparated, bind_eq_ok, pure_eq_ok] at h
  obtain ⟨a, mid, ha, as', mid', hm, rfl, rfl⟩ := h
  obtain ⟨w, rfl, hw⟩ := hitem ha
  obtain ⟨v, rfl, hv⟩ := many_next_sound (by decide) hitem hm
  exact ⟨w ++ v, Tokens.prepend_prepend .., .of_repeated hw hv⟩

theorem catchUp_sound {p : Parser α} {f : Tokens → Tokens} {G : List Token → α → Prop}
    (hp : Sound p G) : Sound (p.catchUp f) G := fun h => hp (catchUp_eq_ok.1 h)

/-- A phrase and a token of a kind after it. -/
theorem before_sound {p : Parser α} {kind : Kind} {G : List Token → α → Prop} (hk : kind ≠ .eof)
    (hp : Sound p G) :
    Sound (p.before kind) fun w a => ∃ v t, w = v ++ [t] ∧ t.kind = kind ∧ G v a := by
  intro ts rest a h
  obtain ⟨mid, ha, he⟩ := before_eq_ok.1 h
  obtain ⟨w, rfl, hw⟩ := hp ha
  obtain ⟨t, rfl, ht⟩ := expect_sound hk he
  exact ⟨w ++ [t], Tokens.prepend_prepend .., w, t, rfl, ht, hw⟩

/-! ### Names -/

/-- What is read as a name is one token. -/
theorem identifier_sound {expected : Expectation} : Sound (identifier expected) Name := by
  intro ts rest a h
  simp only [identifier, bind_eq_ok, current_eq_ok] at h
  obtain ⟨t, mid, ⟨rfl, rfl⟩, h⟩ := h
  split at h
  · rename_i hname
    obtain ⟨hts, rfl⟩ := next_pure_sound (·.isName = true) hname (by decide) h
    exact ⟨[ts.current], hts, .token hname⟩
  · exact absurd h unexpected_ne_ok

/-- The last of some names, the first of which is given. -/
theorem exists_append_getLastD (first : Text) (others : List Text) :
    ∃ qualifiers, first :: others = qualifiers ++ [others.getLastD first] := by
  refine ⟨(first :: others).dropLast, ?_⟩
  rw [← List.getLast_eq_getLastD (List.cons_ne_nil first others)]
  exact (List.dropLast_concat_getLast _).symm

/-- What is read as a qualified name are names with points between them, and its value is the last
of them. -/
theorem qualifiedName_sound {expected : Expectation} :
    Sound (qualifiedName expected) QualifiedName := by
  intro ts rest name h
  simp only [qualifiedName, bind_eq_ok, pure_eq_ok] at h
  obtain ⟨first, mid, hf, others, mid', hm, rfl, rfl⟩ := h
  obtain ⟨w, rfl, hw⟩ := identifier_sound hf
  obtain ⟨v, rfl, hv⟩ := many_next_sound (by decide) identifier_sound hm
  obtain ⟨qualifiers, hlast⟩ := exists_append_getLastD first others
  have hparts : Separated .dot Name (w ++ v) (first :: others) := .of_repeated hw hv
  rw [hlast] at hparts
  exact ⟨w ++ v, Tokens.prepend_prepend .., .parts hparts⟩

/-! ### Types -/

theorem modifier_sound : Sound ((expect .integer).catchUp (Tokens.dropKind .comma))
    fun w _ => Spells [.integer] w := by
  intro ts rest u h
  obtain ⟨t, rfl, ht⟩ := expect_sound (by decide) (catchUp_eq_ok.1 h)
  exact ⟨[t], rfl, by simpa using ht⟩

/-- Modifiers are numbers in parentheses, or nothing. -/
theorem typeModifiers_sound : Sound typeModifiers fun w _ => Modifiers w := by
  intro ts rest u h
  rcases accept_bind_sound (by decide) h with ⟨l, mid, rfl, hl, h⟩ | ⟨-, h⟩
  · obtain ⟨units, h⟩ := discard_eq_ok.1 h
    obtain ⟨_, rfl, w, r, rfl, hr, hw⟩ :=
      before_sound (by decide) (commaSeparated_sound modifier_sound) h
    exact ⟨l :: (w ++ [r]), rfl, .some hl hw hr⟩
  · obtain ⟨-, rfl⟩ := pure_eq_ok.1 h
    exact ⟨[], rfl, .none⟩

/-- After the word of a time type come modifiers and a zone, in this order. -/
theorem zone_sound {base : Text} : Sound (zone base) fun w name =>
    ∃ v x suffix, w = v ++ x ∧ name = base ++ suffix ∧ Modifiers v ∧ Zone x suffix := by
  intro ts rest name h
  rw [zone, bind_eq_ok] at h
  obtain ⟨_, mid, hm, h⟩ := h
  obtain ⟨v, rfl, hv⟩ := typeModifiers_sound (catchUp_eq_ok.1 hm)
  rcases accept_bind_sound (by decide) h with ⟨t, mid, rfl, ht, h⟩ | ⟨-, h⟩
  · simp only [if_true, bind_eq_ok, pure_eq_ok] at h
    obtain ⟨_, _, he, rfl, rfl⟩ := h
    obtain ⟨x, rfl, hx⟩ := expectAll_sound (by decide) he
    exact ⟨v ++ t :: x, by simp, v, t :: x, _, rfl, rfl, hv, .zoned (spells_cons.2 ⟨ht, hx⟩)⟩
  simp only [Bool.false_eq_true, if_false] at h
  rcases accept_bind_sound (by decide) h with ⟨t, mid, rfl, ht, h⟩ | ⟨-, h⟩
  · simp only [if_true, bind_eq_ok, pure_eq_ok] at h
    obtain ⟨_, _, he, rfl, rfl⟩ := h
    obtain ⟨x, rfl, hx⟩ := expectAll_sound (by decide) he
    exact ⟨v ++ t :: x, by simp, v, t :: x, [], rfl, by simp, hv, .unzoned (spells_cons.2 ⟨ht, hx⟩)⟩
  · obtain ⟨rfl, rfl⟩ := pure_eq_ok.1 h
    exact ⟨v, rfl, v, [], [], by simp, by simp, hv, .none⟩

theorem arrayBounds_sound : Sound arrayBounds Bounds := by
  intro ts rest bounds h
  simp only [arrayBounds, bind_eq_ok, current_eq_ok] at h
  obtain ⟨_, mid, hopen, t, _, ⟨rfl, rfl⟩, h⟩ := h
  obtain ⟨l, rfl, hl⟩ := expect_sound (by decide) hopen
  split at h
  · rename_i hint
    simp only [bind_eq_ok, next_eq_ok, pure_eq_ok] at h
    obtain ⟨_, mid', hnext, _, _, hclose, rfl, rfl⟩ := h
    obtain ⟨n, rfl, hn⟩ := exists_prepend_of_advance (by decide) hint hnext
    obtain ⟨r, rfl, hr⟩ := expect_sound (by decide) hclose
    exact ⟨[l, n, r], rfl, .bounded (by simp [hl, hn, hr])⟩
  · simp only [bind_eq_ok, pure_eq_ok] at h
    obtain ⟨_, _, hclose, rfl, rfl⟩ := h
    obtain ⟨r, rfl, hr⟩ := expect_sound (by decide) hclose
    exact ⟨[l, r], rfl, .unbounded (by simp [hl, hr])⟩

/-- A phrase that is not empty begins with the first token that is left. -/
theorem eq_current_of_mem_head? {w : List Token} {t : Token} (ht : t ∈ w.head?) :
    t = (rest.prepend w).current := by
  cases w with
  | nil => cases ht
  | cons a w =>
    cases ht
    rfl

/-- Both words of a type are there, since neither is the end. -/
theorem eq_prepend_of_twoWordType? {name : Text}
    (h : twoWordType? ts.current.kind ts.peek.kind = some name) :
    ts = ts.advance.advance.prepend [ts.current, ts.peek] := by
  obtain ⟨pending, stop⟩ := ts
  match pending, h with
  | [], h => cases h
  | [a], h =>
    unfold twoWordType? at h
    split at h <;> simp_all [Tokens.peek, Tokens.eof]
  | a :: b :: pending, h => rfl

/-- A type is one of two words, a time type or a name, in this order of preference. -/
theorem baseType_sound : Sound baseType BaseType := by
  intro ts rest base h
  simp only [baseType, bind_eq_ok, current_eq_ok, peek_eq_ok] at h
  obtain ⟨first, _, ⟨rfl, rfl⟩, second, _, ⟨rfl, rfl⟩, h⟩ := h
  cases hwords : twoWordType? ts.current.kind ts.peek.kind with
  | some name =>
    simp only [hwords, bind_eq_ok, next_eq_ok, pure_eq_ok] at h
    obtain ⟨_, _, rfl, _, _, rfl, _, _, hm, rfl, rfl⟩ := h
    obtain ⟨w, hrest, hw⟩ := typeModifiers_sound hm
    -- the two words were taken unseen
    refine ⟨ts.current :: ts.peek :: w, ?_, .twoWords (twoWordType?_eq_some_iff.1 hwords) hw⟩
    rw [eq_prepend_of_twoWordType? hwords, hrest]
    simp
  | none =>
    simp only [hwords] at h
    cases htime : timeType? ts.current.kind with
    | some name =>
      simp only [htime, bind_eq_ok, next_eq_ok] at h
      obtain ⟨_, mid, hmid, hz⟩ := h
      have hfirst := Tokens.eq_prepend_of_kind (timeType? · = some name) htime (by simp [timeType?])
      obtain ⟨_, rfl, v, x, suffix, rfl, rfl, hv, hx⟩ := zone_sound hz
      refine ⟨ts.current :: (v ++ x), ?_, .time (timeType?_eq_some_iff.1 htime) hv hx⟩
      rw [hfirst, hmid]
      simp
    | none =>
      simp only [htime] at h
      split at h
      · simp only [bind_eq_ok, pure_eq_ok] at h
        obtain ⟨name, mid, hq, _, _, hm, rfl, rfl⟩ := h
        obtain ⟨w, rfl, hw⟩ := qualifiedName_sound hq
        obtain ⟨v, rfl, hv⟩ := typeModifiers_sound hm
        refine ⟨w ++ v, Tokens.prepend_prepend .., .named hw (fun t ht => ?_) hv⟩
        -- the parser has ruled out the words of time by the first token, which is that of the name
        rw [eq_current_of_mem_head? ht]
        exact timeType?_eq_none_iff.1 htime
      · exact absurd h unexpected_ne_ok

/-- What is read as a type is a type with its array bounds. -/
theorem type_sound : Sound type TypeName := by
  intro ts rest name h
  simp only [type, bind_eq_ok, pure_eq_ok] at h
  obtain ⟨base, mid, hb, bounds, _, hm, rfl, rfl⟩ := h
  obtain ⟨w, rfl, hw⟩ := baseType_sound hb
  obtain ⟨v, rfl, hv⟩ := many_sound (fun _ h => arrayBounds_sound h) hm
  exact ⟨w ++ v, Tokens.prepend_prepend .., .base hw hv⟩

/-! ### Values -/

theorem mem_or_isName_of_isValue {k : Kind} (h : isValue k = true) :
    k ∈ [.integer, .float, .string, .keyword .null, .keyword .true_, .keyword .false_] ∨
      k.isName = true := by
  unfold isValue at h
  split at h <;> simp_all

/-- A value is one token, with or without a sign. -/
theorem operand_sound : Sound operand Operand := by
  intro ts rest value h
  simp only [operand, bind_eq_ok, current_eq_ok] at h
  obtain ⟨_, _, ⟨rfl, rfl⟩, h⟩ := h
  split at h
  · rename_i hsign
    simp only [bind_eq_ok, next_eq_ok, current_eq_ok] at h
    obtain ⟨_, mid, hadv, _, _, ⟨rfl, rfl⟩, h⟩ := h
    have hsign' : ts.current.kind = .plus ∨ ts.current.kind = .minus := by simpa using hsign
    have hfirst : ts = mid.prepend [ts.current] := by
      rw [← hadv]
      exact Tokens.eq_prepend_of_kind (fun k => k = .plus ∨ k = .minus) hsign' (by decide)
    split at h
    · rename_i hop
      obtain ⟨hsecond, rfl⟩ := next_pure_sound (isOperand · = true) hop (by decide) h
      have hop' : mid.current.kind = .integer ∨ mid.current.kind = .float ∨
          mid.current.kind.isName = true := by
        simpa [isOperand, or_assoc] using hop
      refine ⟨[ts.current, mid.current], ?_, .signed hsign' hop'⟩
      calc ts = mid.prepend [ts.current] := hfirst
        _ = (rest.prepend [mid.current]).prepend [ts.current] := by rw [← hsecond]
    · exact absurd h unexpected_ne_ok
  · split at h
    · rename_i hvalue
      obtain ⟨hts, rfl⟩ := next_pure_sound (isValue · = true) hvalue (by decide) h
      exact ⟨[ts.current], hts, .plain (mem_or_isName_of_isValue hvalue)⟩
    · exact absurd h unexpected_ne_ok

/-- What is read as an expression is a value, with or without a cast. -/
theorem expression_sound : Sound expression Expression := by
  intro ts rest value h
  rw [expression, bind_eq_ok] at h
  obtain ⟨value, mid, hop, h⟩ := h
  obtain ⟨w, rfl, hw⟩ := operand_sound hop
  rcases accept_bind_sound (by decide) h with ⟨c, mid, rfl, hc, h⟩ | ⟨-, h⟩
  · simp only [if_true, bind_eq_ok, pure_eq_ok] at h
    obtain ⟨cast, _, ht, rfl, rfl⟩ := h
    obtain ⟨v, rfl, hv⟩ := type_sound ht
    exact ⟨w ++ c :: v, by simp, .cast hw hc hv⟩
  · obtain ⟨rfl, rfl⟩ := pure_eq_ok.1 h
    exact ⟨w, rfl, .plain hw⟩

theorem markedDefault_sound : Sound markedDefault MarkedDefault := by
  intro ts rest value h
  rcases accept_bind_sound (by decide) h with ⟨m, mid, rfl, hm, h⟩ | ⟨-, h⟩
  · obtain ⟨w, rfl, hw⟩ := expression_sound h
    exact ⟨m :: w, rfl, .marked (.inl hm) hw⟩
  simp only [Bool.false_eq_true, if_false] at h
  rcases accept_bind_sound (by decide) h with ⟨m, mid, rfl, hm, h⟩ | ⟨-, h⟩
  · obtain ⟨w, rfl, hw⟩ := expression_sound h
    exact ⟨m :: w, rfl, .marked (.inr hm) hw⟩
  · exact absurd h unexpected_ne_ok

/-- What is read as a default has its mark, and the comment around it is closed. -/
theorem defaultClause_sound : Sound defaultClause DefaultClause := by
  intro ts rest value h
  simp only [defaultClause, bind_eq_ok, current_eq_ok] at h
  obtain ⟨_, _, ⟨rfl, rfl⟩, h⟩ := h
  by_cases hopen : ts.current.kind = .escapeOpen
  · simp only [hopen, bind_eq_ok, next_eq_ok] at h
    obtain ⟨_, mid, hadv, hb⟩ := h
    obtain ⟨o, rfl, ho⟩ := exists_prepend_of_advance (by decide) hopen hadv
    obtain ⟨_, rfl, w, c, rfl, hc, hw⟩ := before_sound (by decide) markedDefault_sound hb
    exact ⟨o :: (w ++ [c]), by simp, .escaped ho hw hc⟩
  · by_cases hmark : ts.current.kind = .keyword .default_ ∨ ts.current.kind = .equals
    · have hm : markedDefault ts = .ok value rest := by
        rcases hmark with hk | hk <;> simpa only [hk] using h
      obtain ⟨w, rfl, hw⟩ := markedDefault_sound hm
      exact ⟨w, rfl, .plain hw⟩
    · rw [not_or] at hmark
      -- with any other first token nothing is read
      have hp : (pure [] : Parser Text) ts = .ok value rest := by
        generalize ts.current.kind = kind at hopen hmark h
        split at h <;> simp_all
      obtain ⟨rfl, rfl⟩ := pure_eq_ok.1 hp
      exact ⟨[], rfl, .none⟩

/-! ### Arguments -/

/-- A mode is taken, or the tokens are left as they are because none is there. -/
theorem argumentMode_sound {mode : ArgumentMode} (h : argumentMode ts = .ok mode rest) :
    (∃ m, ts = rest.prepend [m] ∧ ModeWord m.kind mode) ∨
      (mode = .unmarked ∧ ts = rest ∧
        ((argumentMode? ts.current.kind).isSome && ts.peek.kind.isName) = false) := by
  simp only [argumentMode, bind_eq_ok, current_eq_ok, peek_eq_ok] at h
  obtain ⟨_, _, ⟨rfl, rfl⟩, _, _, ⟨rfl, rfl⟩, h⟩ := h
  cases hmode : argumentMode? ts.current.kind with
  | none =>
    simp only [hmode, pure_eq_ok] at h
    exact .inr ⟨h.1.symm, h.2, rfl⟩
  | some found =>
    simp only [hmode] at h
    split at h
    · obtain ⟨hts, rfl⟩ :=
        next_pure_sound (argumentMode? · = some found) hmode (by simp [argumentMode?]) h
      exact .inl ⟨ts.current, hts, argumentMode?_eq_some_iff.1 hmode⟩
    · rename_i hsecond
      obtain ⟨rfl, rfl⟩ := pure_eq_ok.1 h
      exact .inr ⟨rfl, rfl, by simpa using hsecond⟩

/-- A name is taken that does not begin a type with the word after it, or none is taken. -/
theorem argumentName_sound {name : Text} (h : argumentName ts = .ok name rest) :
    (∃ n, ts = rest.prepend [n] ∧ n.kind.isName = true ∧ name = unquote n.text ∧
        ∀ both, ¬TwoWords n.kind rest.current.kind both) ∨ (name = [] ∧ ts = rest) := by
  simp only [argumentName, bind_eq_ok, current_eq_ok, peek_eq_ok] at h
  obtain ⟨_, _, ⟨rfl, rfl⟩, _, _, ⟨rfl, rfl⟩, h⟩ := h
  split at h
  · rename_i hnames
    simp only [Bool.and_eq_true, Option.isNone_iff_eq_none] at hnames
    obtain ⟨_, rfl, hw⟩ := identifier_sound h
    cases hw with
    | token hname => exact .inl ⟨_, rfl, hname, rfl, twoWordType?_eq_none_iff.1 hnames.2⟩
  · obtain ⟨rfl, rfl⟩ := pure_eq_ok.1 h
    exact .inr ⟨rfl, rfl⟩

theorem nameAndType_sound {mid : Tokens} {name typeText : Text}
    (hname : argumentName ts = .ok name mid) (htype : type mid = .ok typeText rest) :
    ∃ w, ts = rest.prepend w ∧ NameAndType w name typeText := by
  obtain ⟨w, rfl, hw⟩ := type_sound htype
  rcases argumentName_sound hname with ⟨n, rfl, hn, rfl, hwords⟩ | ⟨rfl, rfl⟩
  · refine ⟨n :: w, by simp, .named hn hw fun t ht => ?_⟩
    rw [eq_current_of_mem_head? ht]
    exact hwords
  · exact ⟨w, rfl, .unnamed hw⟩

/-- A phrase does not start with a mode if the tokens with it in front do not. -/
theorem not_startsWithMode {w : List Token}
    (h : ((argumentMode? (rest.prepend w).current.kind).isSome
      && (rest.prepend w).peek.kind.isName) = false) : ¬StartsWithMode w := by
  rintro ⟨mark, hname⟩
  simp [argumentMode?_eq_some_iff.2 mark, hname] at h

/-- What is read after the mode of an argument, be it written or not. -/
theorem argumentRest_sound {mode : ArgumentMode} {arg : Argument}
    (h : (do
      let name ← argumentName
      let type ← type
      let default ← defaultClause
      return { mode, name, type, default } : Parser Argument) ts = .ok arg rest) :
    ∃ w v name type default, ts = rest.prepend (w ++ v) ∧ NameAndType w name type ∧
      DefaultClause v default ∧ arg = { mode, name, type, default } := by
  simp only [bind_eq_ok, pure_eq_ok] at h
  obtain ⟨name, mid, hname, typeText, mid', htype, value, _, hvalue, rfl, rfl⟩ := h
  obtain ⟨w, rfl, hw⟩ := nameAndType_sound hname htype
  obtain ⟨v, rfl, hv⟩ := defaultClause_sound hvalue
  exact ⟨w, v, name, typeText, value, by simp, hw, hv, rfl⟩

/-- What is read as an argument follows the grammar, which leaves out a mode where there is none to
be read. -/
theorem argument_sound {modes : Bool} : Sound (argument modes) (FormalArgument modes) := by
  intro ts rest arg h
  cases modes with
  | false =>
    obtain ⟨w, v, name, type, default, rfl, hw, hv, rfl⟩ := argumentRest_sound h
    exact ⟨w ++ v, rfl, .unmarked hw hv (fun h => absurd h (by decide))⟩
  | true =>
    simp only [argument, if_true] at h
    rw [bind_eq_ok] at h
    obtain ⟨mode, mid, hmode, h⟩ := h
    obtain ⟨w, v, name, type, default, rfl, hw, hv, rfl⟩ := argumentRest_sound h
    rcases argumentMode_sound hmode with ⟨m, rfl, hm⟩ | ⟨rfl, rfl, hnot⟩
    · exact ⟨m :: (w ++ v), by simp, .marked rfl hm hw hv⟩
    · rw [← Tokens.prepend_prepend] at hnot
      exact ⟨w ++ v, rfl, .unmarked hw hv fun _ => not_startsWithMode hnot⟩

theorem arguments_sound {modes : Bool} :
    Sound (arguments modes) (Separated .comma (FormalArgument modes)) :=
  commaSeparated_sound (catchUp_sound argument_sound)

/-! ### Functions -/

/-- A result is declared by `RETURNS`, where it is not that of an option. -/
theorem returnClause_sound : Sound returnClause ResultClause := by
  intro ts rest returns h
  simp only [returnClause, bind_eq_ok, current_eq_ok, peek_eq_ok] at h
  obtain ⟨_, _, ⟨rfl, rfl⟩, _, _, ⟨rfl, rfl⟩, h⟩ := h
  split at h
  · rename_i hreturns
    simp only [Bool.and_eq_true, decide_eq_true_eq] at hreturns
    rw [bind_eq_ok] at h
    obtain ⟨_, mid, hadv, h⟩ := h
    obtain ⟨r, rfl, hr⟩ := exists_prepend_of_advance (by decide) hreturns.1 (next_eq_ok.1 hadv)
    rcases accept_bind_sound (by decide) h with ⟨s, mid, rfl, hs, h⟩ | ⟨hs, h⟩
    · simp only [bind_eq_ok, pure_eq_ok] at h
      obtain ⟨typeText, _, ht, rfl, rfl⟩ := h
      obtain ⟨w, rfl, hw⟩ := type_sound ht
      exact ⟨r :: s :: w, by simp, .set hr hs hw⟩
    · simp only [bind_eq_ok, pure_eq_ok] at h
      obtain ⟨typeText, _, ht, rfl, rfl⟩ := h
      obtain ⟨w, rfl, hw⟩ := type_sound ht
      refine ⟨r :: w, by simp, .single hr hw fun t hhead => ?_⟩
      rw [eq_current_of_mem_head? hhead]
      exact hs
  · obtain ⟨rfl, rfl⟩ := pure_eq_ok.1 h
    exact ⟨[], rfl, .none⟩

/-- One of two tokens is there and taken. -/
theorem either_sound {k k' : Kind} {expected : Expectation} {u : Unit} (hk : k ≠ .eof)
    (hk' : k' ≠ .eof)
    (h : (do
      unless ← accept k do
        unless ← accept k' do
          unexpected expected : Parser Unit) ts = .ok u rest) :
    ∃ t, ts = rest.prepend [t] ∧ (t.kind = k ∨ t.kind = k') := by
  rcases accept_bind_sound hk h with ⟨t, mid, rfl, ht, h⟩ | ⟨-, h⟩
  · obtain ⟨-, rfl⟩ := pure_eq_ok.1 h
    exact ⟨t, rfl, .inl ht⟩
  simp only [Bool.false_eq_true, if_false] at h
  rcases accept_bind_sound hk' h with ⟨t, mid, rfl, ht, h⟩ | ⟨-, h⟩
  · obtain ⟨-, rfl⟩ := pure_eq_ok.1 h
    exact ⟨t, rfl, .inr ht⟩
  · exact absurd h unexpected_ne_ok

theorem securityKind_sound {u : Unit} (h : securityKind ts = .ok u rest) :
    ∃ k ∈ [Keyword.invoker, .definer], ∃ t, ts = rest.prepend [t] ∧ t.kind = .keyword k := by
  obtain ⟨t, rfl, ht | ht⟩ := either_sound (by decide) (by decide) h
  · exact ⟨.invoker, by decide, t, rfl, ht⟩
  · exact ⟨.definer, by decide, t, rfl, ht⟩

/-- The first words of an option, by what may follow them. -/
theorem exists_of_startsOption {kind : Kind} (h : startsOption kind = true) :
    ∃ k, kind = .keyword k ∧ (k = .language ∨
      k ∈ [.immutable, .stable, .volatile, .strict, .window, .leakproof] ∨ k = .not_ ∨
      k = .called ∨ k = .returns ∨ k = .external ∨ k = .security ∨ k ∈ [.cost, .rows] ∨
      k = .as_) := by
  unfold startsOption at h
  split at h
  · rename_i k
    have hk : k ∈ optionWords := by simpa using h
    exact ⟨k, rfl, by simpa [optionWords, or_assoc] using hk⟩
  · cases h

/-- What is read after the first word of an option makes it one of the grammar. -/
theorem functionOption_sound {u : Unit} (hs : startsOption ts.current.kind = true)
    (h : functionOption ts = .ok u rest) : ∃ w, ts = rest.prepend w ∧ FunctionOption w u := by
  obtain ⟨k, hkind, hk⟩ := exists_of_startsOption hs
  simp only [functionOption, bind_eq_ok, current_eq_ok, next_eq_ok] at h
  obtain ⟨_, _, ⟨rfl, rfl⟩, _, mid, hadv, h⟩ := h
  obtain ⟨t, rfl, ht⟩ := exists_prepend_of_advance (by simp) hkind hadv
  rw [hkind] at h
  -- it is enough to find the tokens after the first word
  suffices hrest : ∃ w, mid = rest.prepend w ∧ OptionKinds (.keyword k :: w.map (·.kind)) by
    obtain ⟨w, rfl, hw⟩ := hrest
    refine ⟨t :: w, by simp, ?_⟩
    rwa [FunctionOption, List.map_cons, ht]
  clear hs hadv hkind ht
  -- one case for each first word, or group of words that are followed alike
  rcases hk with rfl | hword | rfl | rfl | rfl | rfl | rfl | hnumber | rfl
  · rcases accept_bind_sound (by decide) h with ⟨n, mid, rfl, hn, h⟩ | ⟨-, h⟩
    · obtain ⟨-, rfl⟩ := pure_eq_ok.1 h
      exact ⟨[n], rfl, .language (.inr hn)⟩
    · obtain ⟨name, h⟩ := discard_eq_ok.1 h
      obtain ⟨_, rfl, hw⟩ := identifier_sound h
      cases hw with
      | token hname => exact ⟨_, rfl, .language (.inl hname)⟩
  · have hpure : (pure () : Parser Unit) mid = .ok u rest := by
      simp only [List.mem_cons, List.not_mem_nil, or_false] at hword
      rcases hword with rfl | rfl | rfl | rfl | rfl | rfl <;> exact h
    obtain ⟨-, rfl⟩ := pure_eq_ok.1 hpure
    exact ⟨[], rfl, .word hword⟩
  · obtain ⟨n, rfl, hn⟩ := expect_sound (by decide) h
    exact ⟨[n], rfl, by simpa [hn] using OptionKinds.notLeakproof⟩
  · obtain ⟨w, rfl, hw⟩ := expectAll_sound (by decide) h
    exact ⟨w, rfl, by rw [hw]; exact .called⟩
  · obtain ⟨w, rfl, hw⟩ := expectAll_sound (by decide) h
    exact ⟨w, rfl, by rw [hw]; exact .returnsNull⟩
  · rw [bind_eq_ok] at h
    obtain ⟨_, mid', he, hkind⟩ := h
    obtain ⟨s, rfl, hs⟩ := expect_sound (by decide) he
    obtain ⟨k, hk, n, rfl, hn⟩ := securityKind_sound hkind
    exact ⟨[s, n], rfl, by simpa [hs, hn] using OptionKinds.externalSecurity hk⟩
  · obtain ⟨k, hk, n, rfl, hn⟩ := securityKind_sound h
    exact ⟨[n], rfl, by simpa [hn] using OptionKinds.security hk⟩
  · have hn : ∃ t, mid = rest.prepend [t] ∧ (t.kind = .integer ∨ t.kind = .float) := by
      simp only [List.mem_cons, List.not_mem_nil, or_false] at hnumber
      rcases hnumber with rfl | rfl <;> exact either_sound (by decide) (by decide) h
    obtain ⟨t, rfl, ht⟩ := hn
    exact ⟨[t], rfl, .number hnumber (by simpa using ht)⟩
  · rw [bind_eq_ok] at h
    obtain ⟨_, mid', he, h⟩ := h
    obtain ⟨s, rfl, hs⟩ := expect_sound (by decide) (catchUp_eq_ok.1 he)
    rcases accept_bind_sound (by decide) h with ⟨c, mid, rfl, hc, h⟩ | ⟨-, h⟩
    · obtain ⟨s', rfl, hs'⟩ := expect_sound (by decide) h
      exact ⟨[s, c, s'], rfl, by simpa [hs, hc, hs'] using OptionKinds.linkedBody⟩
    · obtain ⟨-, rfl⟩ := pure_eq_ok.1 h
      exact ⟨[s], rfl, by simpa [hs] using OptionKinds.body⟩

theorem functionArguments_sound : Sound functionArguments FunctionArguments := by
  intro ts rest args h
  simp only [functionArguments, bind_eq_ok, current_eq_ok] at h
  obtain ⟨_, _, ⟨rfl, rfl⟩, h⟩ := h
  split at h
  · obtain ⟨rfl, rfl⟩ := pure_eq_ok.1 h
    exact ⟨[], rfl, .none⟩
  · obtain ⟨w, rfl, hw⟩ := arguments_sound h
    exact ⟨w, rfl, .some hw⟩

/-- What is read as a function follows the grammar. -/
theorem function_sound : Sound function FunctionPhrase := by
  intro ts rest d h
  simp only [function, functionSignature, bind_eq_ok, before_eq_ok, discard_eq_ok, pure_eq_ok] at h
  -- each step of the run, from left to right
  obtain ⟨_, _, hmark, _, _, ⟨_, ⟨name, _, ⟨_, hname, hleft⟩, args, _, hargs, rfl, rfl⟩, hright⟩,
    returns, _, hresult, _, _, ⟨units, hoptions⟩, rfl, rfl⟩ := h
  obtain ⟨f, rfl, hf⟩ := expect_sound (by decide) hmark
  obtain ⟨w, rfl, hw⟩ := qualifiedName_sound hname
  obtain ⟨l, rfl, hl⟩ := expect_sound (by decide) hleft
  obtain ⟨v, rfl, hv⟩ := functionArguments_sound hargs
  obtain ⟨r, rfl, hr⟩ := expect_sound (by decide) hright
  obtain ⟨x, rfl, hx⟩ := returnClause_sound hresult
  obtain ⟨y, rfl, hy⟩ := many_sound functionOption_sound hoptions
  exact ⟨f :: (w ++ l :: (v ++ r :: (x ++ y))), by simp, .intro hf hw hl hv hr hx hy⟩

/-! ### Aggregates -/

/-- An option is a word, an equals sign and what this word asks for. -/
theorem aggregateOption_sound : Sound aggregateOption AggregateSetting := by
  intro ts rest o h
  simp only [aggregateOption, bind_eq_ok, current_eq_ok] at h
  obtain ⟨_, _, ⟨rfl, rfl⟩, h⟩ := h
  cases hkind : functionOptionKind? ts.current.kind with
  | some kind =>
    simp only [hkind, bind_eq_ok, next_eq_ok, catchUp_eq_ok, pure_eq_ok] at h
    obtain ⟨_, _, hadv, _, _, hequals, value, _, hvalue, rfl, rfl⟩ := h
    have hne : ts.current.kind ≠ .eof := by
      intro heof
      rw [heof] at hkind
      cases hkind
    obtain ⟨k, rfl, hk⟩ := exists_prepend_of_advance hne rfl hadv
    obtain ⟨e, rfl, he⟩ := expect_sound (by decide) hequals
    obtain ⟨w, rfl, hw⟩ := qualifiedName_sound hvalue
    exact ⟨k :: e :: w, by simp, .function (functionOptionKind?_eq_some_iff.1 hkind) he hw⟩
  | none =>
    simp only [hkind] at h
    by_cases hstype : ts.current.kind = .keyword .stype
    · simp only [hstype, bind_eq_ok, next_eq_ok, pure_eq_ok] at h
      obtain ⟨_, _, hadv, _, _, hequals, value, _, hvalue, rfl, rfl⟩ := h
      obtain ⟨k, rfl, hk⟩ := exists_prepend_of_advance (by decide) hstype hadv
      obtain ⟨e, rfl, he⟩ := expect_sound (by decide) hequals
      obtain ⟨w, rfl, hw⟩ := type_sound hvalue
      exact ⟨k :: e :: w, by simp, .stateType hk he hw⟩
    by_cases hinit : ts.current.kind = .keyword .initcond
    · simp only [hinit, bind_eq_ok, next_eq_ok, pure_eq_ok] at h
      obtain ⟨_, _, hadv, _, _, hequals, value, _, hvalue, rfl, rfl⟩ := h
      obtain ⟨k, rfl, hk⟩ := exists_prepend_of_advance (by decide) hinit hadv
      obtain ⟨e, rfl, he⟩ := expect_sound (by decide) hequals
      obtain ⟨w, rfl, hw⟩ := expression_sound hvalue
      exact ⟨k :: e :: w, by simp, .firstState hk he hw⟩
    · -- any other word is refused
      generalize ts.current.kind = kind at hstype hinit h
      split at h
      · exact absurd rfl hstype
      · exact absurd rfl hinit
      · exact absurd h fail_ne_ok
      · exact absurd h fail_ne_ok

theorem aggregateName_sound : Sound aggregateName fun w name =>
    ∃ x v, w = x ++ v ∧ AggregateWords x ∧ QualifiedName v name := by
  intro ts rest name h
  simp only [aggregateName, bind_eq_ok, discard_eq_ok, catchUp_eq_ok] at h
  obtain ⟨_, mid, ⟨ordered, haccept⟩, _, mid', hword, hname⟩ := h
  obtain ⟨a, rfl, ha⟩ := expect_sound (by decide) hword
  obtain ⟨v, rfl, hv⟩ := qualifiedName_sound hname
  cases ordered with
  | true =>
    obtain ⟨hkind, hadv⟩ := accept_eq_ok_true.1 haccept
    obtain ⟨o, rfl, ho⟩ := exists_prepend_of_advance (by decide) hkind hadv
    exact ⟨o :: a :: v, by simp, [o, a], v, rfl, .ordered (by simp [ho, ha]), hv⟩
  | false =>
    obtain ⟨-, rfl⟩ := accept_eq_ok_false.1 haccept
    exact ⟨a :: v, by simp, [a], v, rfl, .plain (by simp [ha]), hv⟩

theorem aggregateArguments_sound : Sound aggregateArguments fun w a =>
    AggregateArguments w a.1 a.2 := by
  intro ts rest a h
  rcases accept_bind_sound (by decide) h with ⟨s, mid, rfl, hs, h⟩ | ⟨-, h⟩
  · obtain ⟨rfl, rfl⟩ := pure_eq_ok.1 h
    exact ⟨[s], rfl, .star hs⟩
  · simp only [Bool.false_eq_true, if_false, bind_eq_ok, pure_eq_ok] at h
    obtain ⟨args, _, hargs, rfl, rfl⟩ := h
    obtain ⟨w, rfl, hw⟩ := arguments_sound hargs
    exact ⟨w, rfl, .some hw⟩

/-- What is read as an aggregate follows the grammar. -/
theorem aggregate_sound : Sound aggregate AggregatePhrase := by
  intro ts rest d h
  simp only [aggregate, aggregateBody, aggregateSignature, before_eq_ok, bind_eq_ok, catchUp_eq_ok,
    pure_eq_ok] at h
  obtain ⟨_, ⟨_, _, ⟨_, ⟨_, ⟨name, _, ⟨_, hname, hleft⟩, args, _, hargs, rfl, rfl⟩, hright⟩,
    hleft'⟩, options, _, hoptions, rfl, rfl⟩, hright'⟩ := h
  obtain ⟨_, rfl, x, w, rfl, hx, hw⟩ := aggregateName_sound hname
  obtain ⟨l, rfl, hl⟩ := expect_sound (by decide) hleft
  obtain ⟨v, rfl, hv⟩ := aggregateArguments_sound hargs
  obtain ⟨r, rfl, hr⟩ := expect_sound (by decide) hright
  obtain ⟨l', rfl, hl'⟩ := expect_sound (by decide) hleft'
  obtain ⟨y, rfl, hy⟩ := commaSeparated_sound aggregateOption_sound hoptions
  obtain ⟨r', rfl, hr'⟩ := expect_sound (by decide) hright'
  exact ⟨x ++ (w ++ l :: (v ++ r :: l' :: (y ++ [r']))), by simp, .intro hx hw hl hv hr hl' hy hr'⟩

/-! ### Statements -/

/-- What is read as a declaration is a function or an aggregate. -/
theorem declaration_sound : Sound declaration Declared := by
  intro ts rest body h
  simp only [declaration, bind_eq_ok, current_eq_ok] at h
  obtain ⟨_, _, ⟨rfl, rfl⟩, h⟩ := h
  generalize ts.current.kind = kind at h
  split at h
  · simp only [bind_eq_ok, pure_eq_ok] at h
    obtain ⟨d, _, hd, rfl, rfl⟩ := h
    obtain ⟨w, rfl, hw⟩ := function_sound hd
    exact ⟨w, rfl, .function hw⟩
  · simp only [bind_eq_ok, pure_eq_ok] at h
    obtain ⟨d, _, hd, rfl, rfl⟩ := h
    obtain ⟨w, rfl, hw⟩ := aggregate_sound hd
    exact ⟨w, rfl, .aggregate hw⟩
  · simp only [bind_eq_ok, pure_eq_ok] at h
    obtain ⟨d, _, hd, rfl, rfl⟩ := h
    obtain ⟨w, rfl, hw⟩ := aggregate_sound hd
    exact ⟨w, rfl, .aggregate hw⟩
  · exact absurd h unexpected_ne_ok

/-- What is read after the words that begin a declaration. -/
theorem createRest_sound {body : StatementBody}
    (h : (do
      let body ← declaration
      expect .semicolon
      return body : Parser StatementBody) ts = .ok body rest) :
    ∃ w s, ts = rest.prepend (w ++ [s]) ∧ Declared w body ∧ s.kind = .semicolon := by
  simp only [bind_eq_ok, pure_eq_ok] at h
  obtain ⟨body, mid, hbody, _, _, hstop, rfl, rfl⟩ := h
  obtain ⟨w, rfl, hw⟩ := declaration_sound hbody
  obtain ⟨s, rfl, hs⟩ := expect_sound (by decide) hstop
  exact ⟨w, s, by simp, hw, hs⟩

/-- Whatever is read as a declaration is a sentence with the value that is read off it. -/
theorem create_sound : Sound create Sentence := by
  intro ts rest body h
  rw [create, bind_eq_ok] at h
  obtain ⟨_, mid, hmark, h⟩ := h
  obtain ⟨c, rfl, hc⟩ := expect_sound (by decide) hmark
  rcases accept_bind_sound (by decide) h with ⟨o, mid, rfl, ho, hor⟩ | ⟨-, hrest⟩
  · rw [if_pos rfl, bind_eq_ok] at hor
    obtain ⟨_, mid', hreplace, hrest⟩ := hor
    obtain ⟨r, rfl, hr⟩ := expect_sound (by decide) hreplace
    obtain ⟨w, s, rfl, hw, hs⟩ := createRest_sound hrest
    have hwords : CreateWords [c, o, r] := .orReplace (by simp [hc, ho, hr])
    exact ⟨[c, o, r] ++ (w ++ [s]), by simp, .intro hwords hw hs⟩
  · obtain ⟨w, s, rfl, hw, hs⟩ := createRest_sound hrest
    have hwords : CreateWords [c] := .plain (by simp [hc])
    exact ⟨[c] ++ (w ++ [s]), by simp, .intro hwords hw hs⟩

/-- A declaration begins with `CREATE`. -/
theorem CreateWords.exists_cons {w : List Token} (h : CreateWords w) :
    ∃ t v, w = t :: v ∧ t.kind = .keyword .create := by
  cases h with
  | plain h =>
    obtain ⟨t, rfl, ht⟩ := List.map_eq_singleton_iff.1 h
    exact ⟨t, [], rfl, ht⟩
  | orReplace h =>
    obtain ⟨t, v, rfl, ht, -⟩ := List.map_eq_cons_iff.1 h
    exact ⟨t, v, rfl, ht⟩

/-- A statement has a first token, and it is not the end. -/
theorem StatementPhrase.exists_cons_ne_eof {w : List Token} {body : StatementBody}
    (h : StatementPhrase w body) : ∃ t v, w = t :: v ∧ t.kind ≠ .eof := by
  cases h with
  | empty h => exact ⟨_, [], rfl, by simp [h]⟩
  | comment h => exact ⟨_, [], rfl, by simp [h]⟩
  | newline h => exact ⟨_, [], rfl, by simp [h]⟩
  | declaration h =>
    cases h with
    | intro words =>
      obtain ⟨t, v, rfl, ht⟩ := words.exists_cons
      exact ⟨t, _, rfl, by simp [ht]⟩

/-- Whatever is read as a statement is one of the grammar, with the value that is read off it. -/
theorem statementBody_sound : Sound statementBody StatementPhrase := by
  intro ts rest body h
  simp only [statementBody, bind_eq_ok, current_eq_ok] at h
  obtain ⟨_, _, ⟨rfl, rfl⟩, h⟩ := h
  generalize hkind : ts.current.kind = kind at h
  split at h
  · obtain ⟨hts, rfl⟩ := next_pure_sound (· = .semicolon) hkind (by decide) h
    exact ⟨[ts.current], hts, .empty hkind⟩
  · obtain ⟨hts, rfl⟩ := next_pure_sound (· = .comment) hkind (by decide) h
    exact ⟨[ts.current], hts, .comment hkind⟩
  · obtain ⟨hts, rfl⟩ := next_pure_sound (· = .newline) hkind (by decide) h
    exact ⟨[ts.current], hts, .newline hkind⟩
  · obtain ⟨w, rfl, hw⟩ := create_sound h
    exact ⟨w, rfl, .declaration hw⟩
  · exact absurd h fail_ne_ok

end Grammar

end SqlStubs
