import SqlStubs.Proofs.Grammar.Soundness

/-!
# What follows the grammar is read

`create_complete`: every sentence of the grammar is read as the declaration that its derivation
gives, and nothing after its semicolon is touched.  A parser that goes on as long as it can reads a
phrase to its end only if no token follows that would prolong it, so each lemma says which kinds of
tokens may follow.

Together with soundness this gives the exact description of what is read: at the word `CREATE`, the
tokens through the first semicolon are a declaration if and only if they are a sentence.
-/

namespace SqlStubs

open SqlStubs.Parser

namespace Grammar

variable {α : Type} {ts rest : Tokens}

/-- `p` reads every phrase of `G` to its end, if a token of a kind in `ends` follows. -/
def Complete (p : Parser α) (G : List Token → α → Prop) (ends : Kind → Prop) : Prop :=
  ∀ ⦃w : List Token⦄ ⦃a : α⦄ ⦃rest : Tokens⦄, G w a → ends rest.current.kind →
    p (rest.prepend w) = .ok a rest

/-! ### Repetition -/

/-- A repetition is read to its end, if nothing follows that would begin another item. -/
theorem many_complete {starts : Kind → Bool} {item : Parser α} {G : List Token → α → Prop}
    {ends : Kind → Prop} (hitem : Complete item G ends)
    (hfirst : ∀ {w a}, G w a → ∃ t v, w = t :: v ∧ starts t.kind = true)
    (hends : ∀ k, starts k = true → ends k) :
    Complete (many starts item) (Repeated G) fun k => ends k ∧ starts k = false := by
  intro w as rest h hrest
  induction h with
  | nil => exact many_of_not_starts hrest.2
  | @cons w v a as hw hv ih =>
    obtain ⟨t, w', rfl, ht⟩ := hfirst hw
    -- after an item stands another one, or what may follow them all
    have hnext : ends (rest.prepend v).current.kind := by
      refine Tokens.current_prepend_of ends (fun s hs => ?_) hrest.1
      cases hv with
      | nil => cases hs
      | cons hfirst' _ =>
        obtain ⟨t', w'', rfl, ht'⟩ := hfirst hfirst'
        cases hs
        exact hends _ ht'
    have hread := hitem hw hnext
    rw [Tokens.prepend_prepend] at hread
    refine many_of_item ht hread ?_ ih
    simp only [Tokens.size_prepend, List.length_append, List.length_cons]
    omega

/-- A separated list is an item and further ones with their marks. -/
theorem Separated.exists_repeated {separator : Kind} {G : List Token → α → Prop} {w : List Token}
    {as : List α} (h : Separated separator G w as) :
    ∃ w' v a as', w = w' ++ v ∧ as = a :: as' ∧ G w' a ∧
      Repeated (fun v b => ∃ s u, v = s :: u ∧ s.kind = separator ∧ G u b) v as' := by
  induction h with
  | @one w a hw => exact ⟨w, [], a, [], by simp, rfl, hw, .nil⟩
  | @more w v s a as hw hs _ ih =>
    obtain ⟨w', v', a', as', rfl, rfl, ha', hv'⟩ := ih
    exact ⟨w, s :: (w' ++ v'), a, a' :: as', rfl, rfl, hw, .cons ⟨s, w', rfl, hs, ha'⟩ hv'⟩

/-- The loop of a separated list.  An item has to end before the separator. -/
theorem many_next_complete {separator : Kind} {item : Parser α} {G : List Token → α → Prop}
    {ends : Kind → Prop} (hitem : Complete item G ends) (hends : ends separator) :
    Complete (many (· = separator) do next; item)
      (Repeated fun v b => ∃ s u, v = s :: u ∧ s.kind = separator ∧ G u b)
      fun k => ends k ∧ k ≠ separator := by
  intro w as rest h hrest
  have hmarked : Complete (do next; item)
      (fun v b => ∃ s u, v = s :: u ∧ s.kind = separator ∧ G u b) ends := by
    rintro _ b rest ⟨s, u, rfl, -, hu⟩ hrest
    rw [next_bind, Tokens.advance_prepend_cons]
    exact hitem hu hrest
  refine many_complete hmarked ?_ ?_ h ⟨hrest.1, by simpa using hrest.2⟩
  · rintro w a ⟨s, u, rfl, hs, -⟩
    exact ⟨s, u, rfl, by simpa using hs⟩
  · intro k hk
    rw [of_decide_eq_true hk]
    exact hends

/-- A list is read to its end, if no comma follows. -/
theorem commaSeparated_complete {item : Parser α} {G : List Token → α → Prop} {ends : Kind → Prop}
    (hitem : Complete item G ends) (hends : ends .comma) :
    Complete (commaSeparated item) (Separated .comma G) fun k => ends k ∧ k ≠ .comma := by
  intro w as rest h hrest
  obtain ⟨w, v, a, as, rfl, rfl, hw, hv⟩ := h.exists_repeated
  -- after the first item stands a comma, or what may follow the whole list
  have hnext : ends (rest.prepend v).current.kind := by
    refine Tokens.current_prepend_of ends (fun s hs => ?_) hrest.1
    cases hv with
    | nil => cases hs
    | cons hfirst _ =>
      obtain ⟨t, u, rfl, ht, -⟩ := hfirst
      cases hs
      rw [ht]
      exact hends
  rw [commaSeparated, ← Tokens.prepend_prepend, bind_of_eq_ok (hitem hw hnext),
    bind_of_eq_ok (many_next_complete hitem hends hv hrest)]
  rfl

theorem catchUp_complete {p : Parser α} {f : Tokens → Tokens} {G : List Token → α → Prop}
    {ends : Kind → Prop} (hp : Complete p G ends) : Complete (p.catchUp f) G ends :=
  fun _ _ _ h hrest => catchUp_eq_ok.2 (hp h hrest)

/-- A phrase and the token after it that ends it. -/
theorem before_complete {p : Parser α} {G : List Token → α → Prop} {ends : Kind → Prop}
    (hp : Complete p G ends) {w : List Token} {a : α} {t : Token} (hw : G w a)
    (ht : ends t.kind) : p.before t.kind (rest.prepend (w ++ [t])) = .ok a rest := by
  rw [← Tokens.prepend_prepend]
  exact before_eq_ok.2 ⟨_, hp hw ht, expect_of_eq rfl⟩

/-- Tokens of the kinds that are looked for are taken, one after the other. -/
theorem expectAll_complete {kinds : List Kind} {w : List Token} (h : Spells kinds w) :
    expectAll kinds (rest.prepend w) = .ok ⟨⟩ rest := by
  induction kinds generalizing w with
  | nil =>
    rw [spells_nil.1 h]
    rfl
  | cons kind kinds ih =>
    obtain ⟨t, w, rfl, ht, hw⟩ : ∃ t v, w = t :: v ∧ t.kind = kind ∧ Spells kinds v := by
      simpa [Spells, List.map_eq_cons_iff] using h
    show (expect kind >>= fun _ => expectAll kinds) (rest.prepend (t :: w)) = _
    rw [expect_bind_of_eq (by simpa using ht)]
    exact ih hw

/-! ### First tokens -/

/-- The first token of two phrases is that of the first one, unless it is empty. -/
theorem forall_mem_head?_append {P : Token → Prop} {w v : List Token} (hw : ∀ t ∈ w.head?, P t)
    (hv : ∀ t ∈ v.head?, P t) : ∀ t ∈ (w ++ v).head?, P t := by
  cases w with
  | nil => exact hv
  | cons a w => exact hw

theorem Modifiers.head {w : List Token} (h : Modifiers w) : ∀ t ∈ w.head?, t.kind = .leftParen := by
  cases h with
  | none => simp
  | some left => simpa using left

/-- A zone begins with `WITH` or `WITHOUT`. -/
theorem Zone.head {w : List Token} {suffix : Text} (h : Zone w suffix) :
    ∀ t ∈ w.head?, t.kind = .keyword .with_ ∨ t.kind = .keyword .without := by
  intro t ht
  cases h with
  | none => simp at ht
  | zoned h =>
    obtain ⟨a, w, rfl, ha, -⟩ := List.map_eq_cons_iff.1 h
    cases ht
    exact .inl ha
  | unzoned h =>
    obtain ⟨a, w, rfl, ha, -⟩ := List.map_eq_cons_iff.1 h
    cases ht
    exact .inr ha

theorem Bounds.exists_cons {w : List Token} {bounds : Text} (h : Bounds w bounds) :
    ∃ t v, w = t :: v ∧ t.kind = .leftBracket := by
  cases h with
  | unbounded h =>
    obtain ⟨a, w, rfl, ha, -⟩ := List.map_eq_cons_iff.1 h
    exact ⟨a, w, rfl, ha⟩
  | bounded h =>
    simp only [spells_cons] at h
    exact ⟨_, _, rfl, h.1⟩

/-- Array bounds begin with a bracket. -/
theorem head_bounds {w : List Token} {bounds : List Text} (h : Repeated Bounds w bounds) :
    ∀ t ∈ w.head?, t.kind = .leftBracket := by
  intro t ht
  cases h with
  | nil => simp at ht
  | cons hfirst _ =>
    obtain ⟨a, w, rfl, ha⟩ := hfirst.exists_cons
    cases ht
    exact ha

/-- A default begins with its mark or with the comment around it. -/
theorem DefaultClause.head {w : List Token} {value : Text} (h : DefaultClause w value) :
    ∀ t ∈ w.head?, t.kind ∈ [.keyword .default_, .equals, .escapeOpen] := by
  intro t ht
  cases h with
  | none => simp at ht
  | plain h =>
    cases h with
    | marked mark =>
      cases ht
      rcases mark with h | h <;> simp [h]
  | escaped left =>
    cases ht
    simp [left]

/-- A qualified name begins with a name, and only a dot may follow it. -/
theorem QualifiedName.exists_cons {w : List Token} {name : Text} (h : QualifiedName w name) :
    ∃ t v, w = t :: v ∧ t.kind.isName = true ∧ ∀ d ∈ v.head?, d.kind = .dot := by
  cases h with
  | parts h =>
    generalize _ ++ [name] = names at h
    cases h with
    | one h =>
      cases h with
      | token hname => exact ⟨_, [], rfl, hname, by simp⟩
    | more h mark =>
      cases h with
      | token hname => exact ⟨_, _, rfl, hname, by simpa using mark⟩

/-- The words of time are not reserved. -/
theorem TimeWord.isName {k : Kind} {name : Text} (h : TimeWord k name) : k.isName = true := by
  cases h <;> rfl

/-- Neither are the words of a type of two words. -/
theorem TwoWords.isName {k k' : Kind} {name : Text} (h : TwoWords k k' name) :
    k.isName = true ∧ k'.isName = true := by
  cases h <;> exact ⟨rfl, rfl⟩

/-- A type begins with a name.  A second name follows only if the two are the words of a type. -/
theorem TypeName.exists_cons {w : List Token} {name : Text} (h : TypeName w name) :
    ∃ t v, w = t :: v ∧ t.kind.isName = true ∧
      ∀ s ∈ v.head?, s.kind.isName = true → ∃ both, TwoWords t.kind s.kind both := by
  cases h with
  | @base w u base bounds type arrays =>
    have harrays : ∀ s ∈ u.head?, s.kind.isName = false :=
      fun s hs => by rw [head_bounds arrays s hs]; rfl
    cases type with
    | twoWords words =>
      refine ⟨_, _, rfl, words.isName.1, ?_⟩
      intro s hs _
      cases hs
      exact ⟨_, words⟩
    | time word modifiers zone =>
      refine ⟨_, _, rfl, word.isName, ?_⟩
      intro s hs hname
      -- modifiers, a zone or brackets: none of them begins with a name
      have hzone : s.kind.isName = false := by
        refine forall_mem_head?_append (forall_mem_head?_append ?_ ?_) harrays s hs
        · intro s hs
          rw [modifiers.head s hs]
          rfl
        · intro s hs
          rcases zone.head s hs with h | h <;> rw [h] <;> rfl
      simp [hzone] at hname
    | named words notTime modifiers =>
      obtain ⟨t, v, rfl, ht, hdot⟩ := words.exists_cons
      refine ⟨t, _, rfl, ht, ?_⟩
      intro s hs hname
      -- a dot, modifiers or brackets
      have hnext : s.kind.isName = false := by
        refine forall_mem_head?_append (forall_mem_head?_append ?_ ?_) harrays s hs
        · intro s hs
          rw [hdot s hs]
          rfl
        · intro s hs
          rw [modifiers.head s hs]
          rfl
      simp [hnext] at hname

/-! ### Names -/

theorem identifier_complete {expected : Expectation} :
    Complete (identifier expected) Name fun _ => True := by
  rintro w name rest ⟨hname⟩ -
  rw [identifier, current_bind, if_pos (by simpa using hname), next_bind]
  rfl

theorem getLastD_of_cons_eq_append {first name : Text} {others qualifiers : List Text}
    (h : first :: others = qualifiers ++ [name]) : others.getLastD first = name := by
  rw [← List.getLast_eq_getLastD (List.cons_ne_nil first others)]
  simp [h]

/-- A qualified name is read to its end, if no point follows. -/
theorem qualifiedName_complete {expected : Expectation} :
    Complete (qualifiedName expected) QualifiedName (· ≠ .dot) := by
  rintro w name rest ⟨h⟩ hrest
  obtain ⟨w, v, first, others, rfl, hnames, hw, hv⟩ := h.exists_repeated
  rw [qualifiedName, ← Tokens.prepend_prepend, bind_of_eq_ok (identifier_complete hw trivial),
    bind_of_eq_ok (many_next_complete identifier_complete trivial hv ⟨trivial, hrest⟩),
    getLastD_of_cons_eq_append hnames.symm]
  rfl

/-! ### Types -/

theorem modifier_complete : Complete ((expect .integer).catchUp (Tokens.dropKind .comma))
    (fun w _ => Spells [.integer] w) fun _ => True := by
  intro w u rest h _
  obtain ⟨t, rfl, ht⟩ := List.map_eq_singleton_iff.1 h
  exact catchUp_eq_ok.2 (expect_of_eq ht)

theorem typeModifiers_complete {w : List Token} (h : Modifiers w)
    (hrest : rest.current.kind ≠ .leftParen) : typeModifiers (rest.prepend w) = .ok () rest := by
  cases h with
  | none => exact accept_bind_of_ne hrest
  | @some l r w units left sizes right =>
    rw [typeModifiers, accept_bind_of_eq (by simpa using left), if_pos rfl]
    refine discard_eq_ok.2 ⟨units, ?_⟩
    rw [← right]
    exact before_complete (commaSeparated_complete modifier_complete trivial) sizes
      ⟨trivial, by simp [right]⟩

/-- A zone is read to its end, if nothing follows that could be modifiers or a zone. -/
theorem zone_complete {base suffix : Text} {w v : List Token} (hw : Modifiers w)
    (hv : Zone v suffix)
    (hrest : rest.current.kind ∉ [.leftParen, .keyword .with_, .keyword .without]) :
    zone base (rest.prepend (w ++ v)) = .ok (base ++ suffix) rest := by
  simp only [List.mem_cons, List.not_mem_nil, or_false, not_or] at hrest
  have hnext : (rest.prepend v).current.kind ≠ .leftParen := by
    refine Tokens.current_prepend_of (· ≠ .leftParen) (fun t ht => ?_) hrest.1
    rcases hv.head t ht with h | h <;> simp [h]
  have hmodifiers : typeModifiers.catchUp Tokens.dropZoneMark ((rest.prepend v).prepend w) =
      .ok () (rest.prepend v) := catchUp_eq_ok.2 (typeModifiers_complete hw hnext)
  rw [zone, ← Tokens.prepend_prepend, bind_of_eq_ok hmodifiers]
  cases hv with
  | none =>
    rw [Tokens.prepend_nil, accept_bind_of_ne hrest.2.1, if_neg (by decide),
      accept_bind_of_ne hrest.2.2, List.append_nil]
    rfl
  | zoned h =>
    obtain ⟨t, v, rfl, ht, hwords⟩ := List.map_eq_cons_iff.1 h
    rw [accept_bind_of_eq (by simpa using ht), if_pos rfl]
    exact bind_of_eq_ok (expectAll_complete hwords)
  | unzoned h =>
    obtain ⟨t, v, rfl, ht, hwords⟩ := List.map_eq_cons_iff.1 h
    rw [accept_bind_of_ne (by simp [ht]), if_neg (by decide), accept_bind_of_eq (by simpa using ht),
      if_pos rfl, List.append_nil]
    exact bind_of_eq_ok (expectAll_complete hwords)

theorem arrayBounds_complete : Complete arrayBounds Bounds fun _ => True := by
  intro w bounds rest h _
  cases h with
  | unbounded h =>
    obtain ⟨l, w, rfl, hl, h⟩ := List.map_eq_cons_iff.1 h
    obtain ⟨r, w, rfl, hr, h⟩ := List.map_eq_cons_iff.1 h
    obtain rfl := List.map_eq_nil_iff.1 h
    rw [arrayBounds, expect_bind_of_eq (by simpa using hl), current_bind, if_neg (by simp [hr]),
      expect_bind_of_eq (by simpa using hr)]
    rfl
  | bounded h =>
    simp only [spells_cons] at h
    rw [arrayBounds, expect_bind_of_eq (by simpa using h.1), current_bind,
      if_pos (by simpa using h.2.1), next_bind, expect_bind_of_eq (by simpa using h.2.2.1)]
    rfl

/-- The kinds of tokens that would prolong a type. -/
def prolongsType : List Kind :=
  [.dot, .leftParen, .leftBracket, .keyword .with_, .keyword .without, .keyword .precision,
    .keyword .varying]

/-- Two words are the words of a type only if the second is `PRECISION` or `VARYING`. -/
theorem twoWordType?_eq_none {k k' : Kind} (hp : k' ≠ .keyword .precision)
    (hv : k' ≠ .keyword .varying) : twoWordType? k k' = none := by
  unfold twoWordType?
  split <;> simp_all

/-- A word of time is not the first of two words of a type. -/
theorem TimeWord.twoWordType?_eq_none {k k' : Kind} {name : Text} (h : TimeWord k name) :
    twoWordType? k k' = none := by
  cases h <;> rfl

/-- A type without array bounds is read to its end, if nothing follows that would prolong it. -/
theorem baseType_complete : Complete baseType BaseType (· ∉ prolongsType.erase .leftBracket) := by
  intro w name rest h hrest
  have hrest' : rest.current.kind ∉ [.dot, .leftParen, .keyword .with_, .keyword .without,
    .keyword .precision, .keyword .varying] := hrest
  simp only [List.mem_cons, List.not_mem_nil, or_false, not_or] at hrest'
  obtain ⟨hdot, hparen, hwith, hwithout, hprecision, hvarying⟩ := hrest'
  rw [baseType, current_bind, peek_bind]
  cases h with
  | twoWords words modifiers =>
    simp only [Tokens.current_prepend_cons, Tokens.peek_prepend_cons,
      twoWordType?_eq_some_iff.2 words]
    rw [next_bind, next_bind]
    exact bind_of_eq_ok (typeModifiers_complete modifiers hparen)
  | time word modifiers zone =>
    simp only [Tokens.current_prepend_cons, word.twoWordType?_eq_none,
      timeType?_eq_some_iff.2 word]
    rw [next_bind, Tokens.advance_prepend_cons]
    exact zone_complete modifiers zone (by simp [hparen, hwith, hwithout])
  | @named w v name words notTime modifiers =>
    obtain ⟨t, u, rfl, hname, hnext⟩ := words.exists_cons
    -- whatever stands after the name, it does not make it the first of two words
    have hsecond : ∀ k, k ∈ [Kind.keyword .precision, .keyword .varying] →
        (rest.prepend (u ++ v)).current.kind ≠ k := by
      intro k hk
      refine Tokens.current_prepend_of (· ≠ k) (forall_mem_head?_append ?_ ?_) ?_
      · intro s hs heq
        rw [← heq, hnext s hs] at hk
        exact absurd hk (by decide)
      · intro s hs heq
        rw [← heq, modifiers.head s hs] at hk
        exact absurd hk (by decide)
      · rintro rfl
        simp [hprecision, hvarying] at hk
    have hwords : twoWordType? t.kind (rest.prepend (u ++ v)).current.kind = none :=
      twoWordType?_eq_none (hsecond _ (by simp)) (hsecond _ (by simp))
    have hfirst : (rest.prepend v).current.kind ≠ .dot := by
      refine Tokens.current_prepend_of (· ≠ .dot) (fun s hs => ?_) hdot
      simp [modifiers.head s hs]
    have hread : qualifiedName .typeName ((rest.prepend v).prepend (t :: u)) =
        .ok name (rest.prepend v) := qualifiedName_complete words hfirst
    simp only [List.cons_append, Tokens.current_prepend_cons, Tokens.peek_prepend_cons, hwords,
      timeType?_eq_none_iff.2 (notTime t rfl), hname, if_true]
    rw [← List.cons_append, ← Tokens.prepend_prepend, bind_of_eq_ok hread,
      bind_of_eq_ok (typeModifiers_complete modifiers hparen)]
    rfl

/-- A type is read to its end, if nothing follows that would prolong it. -/
theorem type_complete : Complete type TypeName (· ∉ prolongsType) := by
  rintro _ _ rest ⟨hbase, harrays⟩ hrest
  rename_i w v base bounds
  -- array bounds do not prolong the type before them, and neither does what follows it all
  have hnext : (rest.prepend v).current.kind ∉ prolongsType.erase .leftBracket := by
    refine Tokens.current_prepend_of (· ∉ prolongsType.erase .leftBracket) (fun t ht => ?_) ?_
    · rw [head_bounds harrays t ht]
      decide
    · exact fun h => hrest (List.mem_of_mem_erase h)
  have hbracket : rest.current.kind ≠ .leftBracket := by
    rintro h
    rw [h] at hrest
    exact hrest (by decide)
  have hmany : many (· = .leftBracket) arrayBounds (rest.prepend v) = .ok bounds rest := by
    refine many_complete arrayBounds_complete (fun h => ?_) (fun _ _ => trivial) harrays
      ⟨trivial, by simpa using hbracket⟩
    obtain ⟨t, v, rfl, ht⟩ := h.exists_cons
    exact ⟨t, v, rfl, by simpa using ht⟩
  rw [type, ← Tokens.prepend_prepend, bind_of_eq_ok (baseType_complete hbase hnext),
    bind_of_eq_ok hmany]
  rfl

/-! ### Values -/

theorem operand_complete : Complete operand Operand fun _ => True := by
  intro w value rest h _
  rw [operand, current_bind]
  cases h with
  | @signed s t sign h =>
    have hoperand : isOperand t.kind = true := by
      simpa [isOperand, or_assoc] using h
    rw [Tokens.current_prepend_cons, if_pos (by simpa using sign), next_bind, current_bind,
      Tokens.advance_prepend_cons, Tokens.current_prepend_cons, if_pos hoperand, next_bind]
    rfl
  | @plain t h =>
    have hvalue : isValue t.kind = true := by
      rcases h with h | h
      · simp only [List.mem_cons, List.not_mem_nil, or_false] at h
        rcases h with h | h | h | h | h | h <;> rw [h] <;> rfl
      · unfold isValue
        split <;> first | rfl | exact h
    -- the parser asks for a sign first
    have hsign : t.kind ≠ .plus ∧ t.kind ≠ .minus := by
      constructor <;> intro heq <;> rw [heq] at hvalue <;> exact absurd hvalue (by decide)
    rw [Tokens.current_prepend_cons, if_neg (by simpa using hsign), if_pos hvalue, next_bind]
    rfl

/-- A value is read to its end if no cast follows, nor anything that would prolong its type. -/
theorem expression_complete :
    Complete expression Expression fun k => k ∉ prolongsType ∧ k ≠ .doubleColon := by
  intro w value rest h hrest
  cases h with
  | plain operand =>
    rw [expression, bind_of_eq_ok (operand_complete operand trivial), accept_bind_of_ne hrest.2]
    rfl
  | cast operand mark target =>
    rw [expression, ← Tokens.prepend_prepend, bind_of_eq_ok (operand_complete operand trivial),
      accept_bind_of_eq (by simpa using mark), if_pos rfl, Tokens.advance_prepend_cons,
      bind_of_eq_ok (type_complete target hrest.1)]
    rfl

theorem markedDefault_complete :
    Complete markedDefault MarkedDefault fun k => k ∉ prolongsType ∧ k ≠ .doubleColon := by
  rintro _ value rest ⟨mark, h⟩ hrest
  rw [markedDefault]
  rcases mark with hdefault | hequals
  · rw [accept_bind_of_eq (by simpa using hdefault), if_pos rfl]
    exact expression_complete h hrest
  · rw [accept_bind_of_ne (by simp [hequals]), if_neg (by decide),
      accept_bind_of_eq (by simpa using hequals), if_pos rfl]
    exact expression_complete h hrest

/-- The kinds of tokens that end an argument. -/
def endsArgument : List Kind := [.comma, .rightParen]

/-- What ends an argument prolongs neither its type nor its default. -/
theorem not_prolongsType_of_endsArgument {k : Kind} (h : k ∈ endsArgument) :
    k ∉ prolongsType ∧ k ≠ .doubleColon := by
  simp only [endsArgument, List.mem_cons, List.not_mem_nil, or_false] at h
  rcases h with rfl | rfl <;> decide

/-- A default is read to the end of the argument. -/
theorem defaultClause_complete : Complete defaultClause DefaultClause (· ∈ endsArgument) := by
  intro w value rest h hrest
  rw [defaultClause, current_bind]
  cases h with
  | none =>
    simp only [endsArgument, List.mem_cons, List.not_mem_nil, or_false] at hrest
    rcases hrest with h | h <;> rw [Tokens.prepend_nil, h] <;> rfl
  | plain h =>
    have hread := markedDefault_complete h (not_prolongsType_of_endsArgument hrest)
    cases h with
    | marked mark =>
      rw [Tokens.current_prepend_cons]
      rcases mark with h | h <;> rw [h] <;> exact hread
  | escaped left h right =>
    rw [Tokens.current_prepend_cons, left]
    show (next >>= fun _ => markedDefault.before .escapeClose) _ = _
    rw [next_bind, Tokens.advance_prepend_cons, ← right]
    exact before_complete markedDefault_complete h (by rw [right]; decide)

/-! ### Arguments -/

/-- With or without a name, an argument begins with one. -/
theorem NameAndType.exists_cons {w : List Token} {name type : Text} (h : NameAndType w name type) :
    ∃ t v, w = t :: v ∧ t.kind.isName = true := by
  cases h with
  | unnamed h =>
    obtain ⟨t, v, rfl, ht, -⟩ := h.exists_cons
    exact ⟨t, v, rfl, ht⟩
  | named name => exact ⟨_, _, rfl, name⟩

/-- The token after the type of an argument does not prolong it, and is not a name. -/
theorem current_defaultClause {v : List Token} {value : Text} (hv : DefaultClause v value)
    (hrest : rest.current.kind ∈ endsArgument) :
    (rest.prepend v).current.kind ∉ prolongsType ∧
      (rest.prepend v).current.kind.isName = false := by
  refine Tokens.current_prepend_of (fun k => k ∉ prolongsType ∧ k.isName = false) ?_ ?_
  · intro t ht
    have hmark := hv.head t ht
    simp only [List.mem_cons, List.not_mem_nil, or_false] at hmark
    rcases hmark with h | h | h <;> rw [h] <;> decide
  · simp only [endsArgument, List.mem_cons, List.not_mem_nil, or_false] at hrest
    rcases hrest with h | h <;> rw [h] <;> decide

/-- A name is told from a type by what follows it. -/
theorem nameAndType_complete {w : List Token} {name typeText : Text}
    (h : NameAndType w name typeText) (hprolongs : rest.current.kind ∉ prolongsType)
    (hname : rest.current.kind.isName = false) :
    ∃ mid, argumentName (rest.prepend w) = .ok name mid ∧ type mid = .ok typeText rest := by
  rw [argumentName, current_bind, peek_bind]
  cases h with
  | unnamed h =>
    refine ⟨rest.prepend w, ?_, type_complete h hprolongs⟩
    obtain ⟨t, u, rfl, -, hsecond⟩ := h.exists_cons
    -- a second name within the type is a second word of it, and after the type there is no name
    have hwords : ((rest.prepend u).current.kind.isName &&
        (twoWordType? t.kind (rest.prepend u).current.kind).isNone) = false := by
      refine Tokens.current_prepend_of
        (fun k => (k.isName && (twoWordType? t.kind k).isNone) = false) (fun s hs => ?_) ?_
      · cases hs' : s.kind.isName with
        | false => rfl
        | true =>
          obtain ⟨both, hboth⟩ := hsecond s hs hs'
          simp [twoWordType?_eq_some_iff.2 hboth]
      · simp [hname]
    rw [Tokens.current_prepend_cons, Tokens.peek_prepend_cons, Bool.and_assoc, hwords,
      Bool.and_false, if_neg (by decide)]
    rfl
  | @named n w type hn h notWords =>
    refine ⟨rest.prepend w, ?_, type_complete h hprolongs⟩
    obtain ⟨t, u, rfl, ht, -⟩ := h.exists_cons
    -- the token after the name is the first of the type, and so a name too
    rw [if_pos]
    · exact @identifier_complete _ [n] _ (rest.prepend (t :: u)) (.token hn) trivial
    · simp [hn, ht, twoWordType?_eq_none_iff.2 (notWords t rfl)]

/-- No mode is read where the grammar sees none. -/
theorem argumentMode_of_not_startsWithMode {w : List Token} (hw : ¬StartsWithMode w)
    (hne : w ≠ []) (hname : rest.current.kind.isName = false) :
    argumentMode (rest.prepend w) = .ok .unmarked (rest.prepend w) := by
  obtain ⟨t, u, rfl⟩ := List.exists_cons_of_ne_nil hne
  -- the second token may be the one after the phrase, of which the grammar says nothing
  have hpeek : (rest.prepend (t :: u)).peek.kind.isName = false ∨ argumentMode? t.kind = none := by
    cases u with
    | nil => exact .inl hname
    | cons s u =>
      cases h : argumentMode? t.kind with
      | none => exact .inr rfl
      | some mode =>
        refine .inl (Bool.eq_false_iff.2 fun hs => ?_)
        exact hw ⟨argumentMode?_eq_some_iff.1 h, hs⟩
  rw [argumentMode, current_bind, peek_bind, Tokens.current_prepend_cons]
  cases h : argumentMode? t.kind with
  | none => rfl
  | some mode =>
    simp only [h, reduceCtorEq, or_false] at hpeek
    simp only [hpeek, Bool.false_eq_true, if_false]
    rfl

/-- What follows the mode of an argument, be it written or not. -/
theorem argumentRest_complete {mode : ArgumentMode} {w v : List Token}
    {name typeText value : Text} (hw : NameAndType w name typeText) (hv : DefaultClause v value)
    (hrest : rest.current.kind ∈ endsArgument) :
    (do
      let name ← argumentName
      let type ← type
      let default ← defaultClause
      return { mode, name, type, default } : Parser Argument) (rest.prepend (w ++ v)) =
      .ok { mode, name, type := typeText, default := value } rest := by
  obtain ⟨hprolongs, hname⟩ := current_defaultClause hv hrest
  obtain ⟨mid, hargName, htype⟩ := nameAndType_complete hw hprolongs hname
  rw [← Tokens.prepend_prepend, bind_of_eq_ok hargName, bind_of_eq_ok htype,
    bind_of_eq_ok (defaultClause_complete hv hrest)]
  rfl

/-- An argument is read up to the comma or the parenthesis after it. -/
theorem argument_complete {modes : Bool} :
    Complete (argument modes) (FormalArgument modes) (· ∈ endsArgument) := by
  intro w arg rest h hrest
  cases h with
  | @unmarked w v name typeText default h value notMode =>
    cases modes with
    | false => exact argumentRest_complete h value hrest
    | true =>
      have hname := (current_defaultClause value hrest).2
      obtain ⟨t, u, rfl, -⟩ := h.exists_cons
      have hmode := argumentMode_of_not_startsWithMode (notMode rfl) (by simp) hname
      rw [Tokens.prepend_prepend] at hmode
      simp only [argument, if_true]
      rw [bind_of_eq_ok hmode]
      exact argumentRest_complete h value hrest
  | @marked m w v mode name typeText default allowed mark h value =>
    subst allowed
    obtain ⟨t, u, rfl, ht⟩ := h.exists_cons
    have hmode : argumentMode (rest.prepend (m :: (t :: u ++ v))) =
        .ok mode (rest.prepend (t :: u ++ v)) := by
      rw [argumentMode, current_bind, peek_bind]
      simp only [Tokens.current_prepend_cons, Tokens.peek_prepend_cons, List.cons_append,
        argumentMode?_eq_some_iff.2 mark, ht, if_true]
      rfl
    simp only [argument, if_true]
    rw [bind_of_eq_ok hmode]
    exact argumentRest_complete h value hrest

theorem arguments_complete {modes : Bool} :
    Complete (arguments modes) (Separated .comma (FormalArgument modes)) (· = .rightParen) := by
  intro w args rest h hrest
  refine commaSeparated_complete (catchUp_complete argument_complete) (by decide) h ?_
  rw [hrest]
  decide

/-- An argument does not begin with what may stand in place of all arguments. -/
theorem arguments_exists_cons {modes : Bool} {w : List Token} {args : List Argument}
    (h : Separated .comma (FormalArgument modes) w args) :
    ∃ t v, w = t :: v ∧ t.kind ∉ [.rightParen, .star] := by
  obtain ⟨w, v, arg, args, rfl, -, hw, -⟩ := h.exists_repeated
  suffices hfirst : ∃ t u, w = t :: u ∧ t.kind ∉ [.rightParen, .star] by
    obtain ⟨t, u, rfl, ht⟩ := hfirst
    exact ⟨t, u ++ v, rfl, ht⟩
  cases hw with
  | unmarked named =>
    obtain ⟨t, u, rfl, ht⟩ := named.exists_cons
    refine ⟨t, _, rfl, fun hmem => ?_⟩
    simp only [List.mem_cons, List.not_mem_nil, or_false] at hmem
    rcases hmem with h | h <;> rw [h] at ht <;> exact absurd ht (by decide)
  | marked _ mark =>
    refine ⟨_, _, rfl, fun hmem => ?_⟩
    simp only [List.mem_cons, List.not_mem_nil, or_false] at hmem
    rcases hmem with h | h <;> rw [h] at mark <;> cases mark

/-! ### Functions -/

/-- An option begins with one of its words, and `RETURNS` is one only before `NULL`. -/
theorem OptionKinds.exists_cons {kinds : List Kind} (h : OptionKinds kinds) :
    ∃ k ks, kinds = .keyword k :: ks ∧ k ∈ optionWords ∧
      (k = .returns → ks.head? = some (.keyword .null)) := by
  cases h with
  | language => exact ⟨_, _, rfl, by decide, by simp⟩
  | @word k h =>
    refine ⟨k, _, rfl, ?_, ?_⟩
    · revert k
      decide
    · rintro rfl
      simp at h
  | notLeakproof => exact ⟨_, _, rfl, by decide, by decide⟩
  | called => exact ⟨_, _, rfl, by decide, by decide⟩
  | returnsNull => exact ⟨_, _, rfl, by decide, fun _ => rfl⟩
  | security => exact ⟨_, _, rfl, by decide, by simp⟩
  | externalSecurity => exact ⟨_, _, rfl, by decide, by simp⟩
  | @number k n h =>
    refine ⟨k, _, rfl, ?_, ?_⟩
    · revert k
      decide
    · rintro rfl
      simp at h
  | body => exact ⟨_, _, rfl, by decide, by decide⟩
  | linkedBody => exact ⟨_, _, rfl, by decide, by decide⟩

/-- The first token of an option is one of its words, and a `RETURNS` comes before `NULL`. -/
theorem FunctionOption.exists_cons {w : List Token} {u : Unit} (h : FunctionOption w u) :
    ∃ t v k, w = t :: v ∧ t.kind = .keyword k ∧ k ∈ optionWords ∧
      (k = .returns → ∃ s ∈ v.head?, s.kind = .keyword .null) := by
  obtain ⟨k, ks, hkinds, hk, hreturns⟩ := OptionKinds.exists_cons h
  obtain ⟨t, v, rfl, ht, rfl⟩ := List.map_eq_cons_iff.1 hkinds
  refine ⟨t, v, k, rfl, ht, hk, fun h => ?_⟩
  have hnull := hreturns h
  rw [List.head?_map, Option.map_eq_some_iff] at hnull
  exact hnull

/-- One of two tokens is there. -/
theorem either_complete {k k' : Kind} {expected : Expectation} {t : Token}
    (h : t.kind = k ∨ t.kind = k') :
    (do
      unless ← accept k do
        unless ← accept k' do
          unexpected expected : Parser Unit) (rest.prepend [t]) = .ok () rest := by
  by_cases hk : t.kind = k
  · exact accept_bind_of_eq hk
  · rw [accept_bind_of_ne (by simpa using hk), if_neg (by decide)]
    exact accept_bind_of_eq (h.resolve_left hk)

theorem securityKind_complete {k : Keyword} {t : Token} (hk : k ∈ [Keyword.invoker, .definer])
    (ht : t.kind = .keyword k) : securityKind (rest.prepend [t]) = .ok () rest := by
  refine either_complete ?_
  simp only [List.mem_cons, List.not_mem_nil, or_false] at hk
  rcases hk with rfl | rfl
  · exact .inl ht
  · exact .inr ht

/-- An option is read to its end, if no comma follows: after a body it would begin a second one. -/
theorem functionOption_complete : Complete functionOption FunctionOption (· ≠ .comma) := by
  intro w u rest h hrest
  obtain ⟨t, v, k, rfl, ht, -, -⟩ := h.exists_cons
  rw [functionOption, current_bind, next_bind, Tokens.current_prepend_cons,
    Tokens.advance_prepend_cons]
  rw [FunctionOption, List.map_cons] at h
  generalize hkinds : v.map (·.kind) = kinds at h
  -- the first word decides how the others are read
  rw [ht] at h ⊢
  cases h with
  | language h =>
    obtain ⟨n, rfl, rfl⟩ := List.map_eq_singleton_iff.1 hkinds
    show (accept .string >>= _) _ = _
    by_cases hstring : n.kind = .string
    · rw [accept_bind_of_eq (by simpa using hstring)]
      rfl
    · rw [accept_bind_of_ne (by simpa using hstring)]
      have hname := h.resolve_right hstring
      exact discard_eq_ok.2 ⟨_, identifier_complete (.token hname) trivial⟩
  | word h =>
    obtain rfl := List.map_eq_nil_iff.1 hkinds
    simp only [List.mem_cons, List.not_mem_nil, or_false] at h
    rcases h with rfl | rfl | rfl | rfl | rfl | rfl <;> rfl
  | notLeakproof =>
    obtain ⟨n, rfl, hn⟩ := List.map_eq_singleton_iff.1 hkinds
    exact expect_of_eq hn
  | called => exact expectAll_complete hkinds
  | returnsNull => exact expectAll_complete hkinds
  | security h =>
    obtain ⟨n, rfl, hn⟩ := List.map_eq_singleton_iff.1 hkinds
    exact securityKind_complete h hn
  | externalSecurity h =>
    obtain ⟨s, v, rfl, hs, hv⟩ := List.map_eq_cons_iff.1 hkinds
    obtain ⟨n, rfl, hn⟩ := List.map_eq_singleton_iff.1 hv
    show (expect (.keyword .security) >>= fun _ => securityKind) _ = _
    rw [expect_bind_of_eq (by simpa using hs)]
    exact securityKind_complete h hn
  | number h number =>
    obtain ⟨n, rfl, rfl⟩ := List.map_eq_singleton_iff.1 hkinds
    have hread := @either_complete rest .integer .float .number n (by simpa using number)
    simp only [List.mem_cons, List.not_mem_nil, or_false] at h
    rcases h with rfl | rfl <;> exact hread
  | body =>
    obtain ⟨s, rfl, hs⟩ := List.map_eq_singleton_iff.1 hkinds
    have hbody : ((expect .string).catchUp Tokens.dropCommaString) (rest.prepend [s]) =
      .ok () rest := catchUp_eq_ok.2 (expect_of_eq hs)
    show (_ >>= fun _ => accept .comma >>= _) _ = _
    -- no comma follows, so there is no second string
    rw [bind_of_eq_ok hbody, accept_bind_of_ne hrest]
    rfl
  | linkedBody =>
    obtain ⟨s, v, rfl, hs, hv⟩ := List.map_eq_cons_iff.1 hkinds
    obtain ⟨c, v, rfl, hc, hv⟩ := List.map_eq_cons_iff.1 hv
    obtain ⟨s', rfl, hs'⟩ := List.map_eq_singleton_iff.1 hv
    have hbody : ((expect .string).catchUp Tokens.dropCommaString) (rest.prepend [s, c, s']) =
      .ok () (rest.prepend [c, s']) := catchUp_eq_ok.2 (expect_of_eq hs)
    show (_ >>= fun _ => accept .comma >>= _) _ = _
    rw [bind_of_eq_ok hbody, accept_bind_of_eq (by simpa using hc), if_pos rfl]
    exact expect_of_eq hs'

/-- The options of a function are read up to the semicolon. -/
theorem options_complete : Complete (many startsOption functionOption) (Repeated FunctionOption)
    (· = .semicolon) := by
  intro w units rest h hrest
  refine many_complete functionOption_complete (fun h => ?_) ?_ h (by rw [hrest]; decide)
  · obtain ⟨t, v, k, rfl, ht, hk, -⟩ := h.exists_cons
    exact ⟨t, v, rfl, by simpa [ht, startsOption] using hk⟩
  · rintro k hk rfl
    cases hk

/-- The options of a function do not prolong its result, and do not look like one. -/
theorem current_options {w : List Token} {units : List Unit} (h : Repeated FunctionOption w units)
    (hrest : rest.current.kind = .semicolon) :
    (rest.prepend w).current.kind ∉ prolongsType ∧
      ((rest.prepend w).current.kind = .keyword .returns →
        (rest.prepend w).peek.kind = .keyword .null) := by
  cases h with
  | nil =>
    rw [Tokens.prepend_nil, hrest]
    exact ⟨by decide, nofun⟩
  | cons first others =>
    obtain ⟨t, v, k, rfl, ht, hk, hreturns⟩ := first.exists_cons
    rw [List.cons_append, Tokens.current_prepend_cons, Tokens.peek_prepend_cons, ht]
    constructor
    · clear ht hreturns
      revert k
      decide
    · intro heq
      cases heq
      obtain ⟨s, hs, hnull⟩ := hreturns rfl
      obtain ⟨u, rfl⟩ := List.head?_eq_some_iff.1 hs
      exact hnull

/-- The result of a function is read up to its options. -/
theorem returnClause_complete {w v : List Token} {returns : Option ReturnClause} {units : List Unit}
    (hw : ResultClause w returns) (hv : Repeated FunctionOption v units)
    (hrest : rest.current.kind = .semicolon) :
    returnClause (rest.prepend (w ++ v)) = .ok returns (rest.prepend v) := by
  obtain ⟨hnext, hoption⟩ := current_options hv hrest
  rw [returnClause, current_bind, peek_bind, ← Tokens.prepend_prepend]
  cases hw with
  | none =>
    rw [Tokens.prepend_nil, if_neg]
    · rfl
    · simp only [Bool.and_eq_true, decide_eq_true_eq]
      -- a `RETURNS` that is seen here is that of an option
      rintro ⟨hreturns, hnull⟩
      exact hnull (hoption hreturns)
  | @single r w type mark h notSet =>
    have hread := type_complete h hnext
    obtain ⟨t, u, rfl, ht, -⟩ := h.exists_cons
    have hnull : t.kind ≠ .keyword .null := by
      intro h
      rw [h] at ht
      exact absurd ht (by decide)
    rw [if_pos (by simp [mark, hnull]), next_bind, Tokens.advance_prepend_cons,
      accept_bind_of_ne (by simpa using notSet t rfl), bind_of_eq_ok hread]
    rfl
  | @set r s w type mark setMark h =>
    rw [if_pos (by simp [mark, setMark]), next_bind, Tokens.advance_prepend_cons,
      accept_bind_of_eq (by simpa using setMark), Tokens.advance_prepend_cons,
      bind_of_eq_ok (type_complete h hnext)]
    rfl

theorem functionArguments_complete :
    Complete functionArguments FunctionArguments (· = .rightParen) := by
  intro w args rest h hrest
  rw [functionArguments, current_bind]
  cases h with
  | none =>
    rw [Tokens.prepend_nil, if_pos hrest]
    rfl
  | some h =>
    have hread := arguments_complete h hrest
    obtain ⟨t, u, rfl, ht⟩ := arguments_exists_cons h
    rw [if_neg]
    · exact hread
    · intro hparen
      rw [Tokens.current_prepend_cons] at hparen
      simp [hparen] at ht

/-- A function is read up to its semicolon. -/
theorem function_complete : Complete function FunctionPhrase (· = .semicolon) := by
  intro _ d rest h hrest
  cases h with
  | @intro f l r w v x y name arguments returns units mark named left args right result options =>
    have hmark : expect (.keyword .function)
        (rest.prepend (f :: (w ++ l :: (v ++ r :: (x ++ y))))) =
        .ok () (rest.prepend (w ++ l :: (v ++ r :: (x ++ y)))) := expect_of_eq mark
    have hname : qualifiedName .functionName (rest.prepend (w ++ l :: (v ++ r :: (x ++ y)))) =
        .ok name (rest.prepend (l :: (v ++ r :: (x ++ y)))) := by
      rw [← Tokens.prepend_prepend]
      exact qualifiedName_complete named (by simp [left])
    have hargs : functionArguments (rest.prepend (v ++ r :: (x ++ y))) =
        .ok arguments (rest.prepend (r :: (x ++ y))) := by
      rw [← Tokens.prepend_prepend]
      exact functionArguments_complete args right
    -- from here on the parts only have to be put in their order
    simp only [function, functionSignature, bind_eq_ok, before_eq_ok, discard_eq_ok, pure_eq_ok]
    exact ⟨(), _, hmark, (name, arguments), _,
      ⟨_, ⟨name, _, ⟨_, hname, expect_of_eq left⟩, arguments, _, hargs, rfl, rfl⟩,
        expect_of_eq right⟩,
      returns, _, returnClause_complete result options hrest, ⟨⟩, rest,
      ⟨units, options_complete options hrest⟩, rfl, rfl⟩

/-! ### Aggregates -/

/-- An option of an aggregate is read to its end, if nothing follows that would prolong what it is
set to. -/
theorem aggregateOption_complete : Complete aggregateOption AggregateSetting
    fun k => k ∉ prolongsType ∧ k ≠ .doubleColon := by
  intro w o rest h hrest
  rw [aggregateOption, current_bind]
  cases h with
  | @function k e w kind value mark equals h =>
    -- of what would prolong a name, the point is the only one
    have hdot : rest.current.kind ≠ .dot := by
      intro hdot
      rw [hdot] at hrest
      exact hrest.1 (by decide)
    have hequals : ((expect .equals).catchUp Tokens.dropName) (rest.prepend (e :: w)) =
        .ok () (rest.prepend w) := catchUp_eq_ok.2 (expect_of_eq equals)
    simp only [Tokens.current_prepend_cons, functionOptionKind?_eq_some_iff.2 mark]
    rw [next_bind, Tokens.advance_prepend_cons, bind_of_eq_ok hequals,
      bind_of_eq_ok (qualifiedName_complete h hdot)]
    rfl
  | @stateType k e w value mark equals h =>
    simp only [Tokens.current_prepend_cons, mark, functionOptionKind?]
    rw [next_bind, Tokens.advance_prepend_cons, expect_bind_of_eq (by simpa using equals),
      Tokens.advance_prepend_cons, bind_of_eq_ok (type_complete h hrest.1)]
    rfl
  | @firstState k e w value mark equals h =>
    simp only [Tokens.current_prepend_cons, mark, functionOptionKind?]
    rw [next_bind, Tokens.advance_prepend_cons, expect_bind_of_eq (by simpa using equals),
      Tokens.advance_prepend_cons, bind_of_eq_ok (expression_complete h hrest)]
    rfl

theorem aggregateName_complete {x w : List Token} {name : Text} (hx : AggregateWords x)
    (hw : QualifiedName w name) (hrest : rest.current.kind ≠ .dot) :
    aggregateName (rest.prepend (x ++ w)) = .ok name rest := by
  have hname := @qualifiedName_complete .aggregateName _ _ _ hw hrest
  simp only [aggregateName, bind_eq_ok, discard_eq_ok, catchUp_eq_ok]
  cases hx with
  | plain h =>
    obtain ⟨a, rfl, ha⟩ := List.map_eq_singleton_iff.1 h
    have haccept : accept (.keyword .ordered) (rest.prepend ([a] ++ w)) =
        .ok false (rest.prepend ([a] ++ w)) := by
      refine accept_eq_ok_false.2 ⟨?_, rfl⟩
      simp [ha]
    exact ⟨⟨⟩, _, ⟨false, haccept⟩, (), _, expect_of_eq ha, hname⟩
  | ordered h =>
    obtain ⟨o, v, rfl, ho, h⟩ := List.map_eq_cons_iff.1 h
    obtain ⟨a, rfl, ha⟩ := List.map_eq_singleton_iff.1 h
    have haccept : accept (.keyword .ordered) (rest.prepend ([o, a] ++ w)) =
        .ok true (rest.prepend ([a] ++ w)) := accept_eq_ok_true.2 ⟨ho, rfl⟩
    exact ⟨⟨⟩, _, ⟨true, haccept⟩, (), _, expect_of_eq ha, hname⟩

theorem aggregateArguments_complete {w : List Token} {wildcard : Bool} {args : List Argument}
    (h : AggregateArguments w wildcard args) (hrest : rest.current.kind = .rightParen) :
    aggregateArguments (rest.prepend w) = .ok (wildcard, args) rest := by
  rw [aggregateArguments]
  cases h with
  | star h =>
    rw [accept_bind_of_eq (by simpa using h)]
    rfl
  | some h =>
    have hread := arguments_complete h hrest
    obtain ⟨t, u, rfl, ht⟩ := arguments_exists_cons h
    have hstar : t.kind ≠ .star := by
      intro hstar
      simp [hstar] at ht
    rw [accept_bind_of_ne (by simpa using hstar), if_neg (by decide), bind_of_eq_ok hread]
    rfl

/-- An aggregate is read to its closing parenthesis, whatever follows. -/
theorem aggregate_complete : Complete aggregate AggregatePhrase fun _ => True := by
  intro _ d rest h _
  cases h with
  | @intro l r l' r' x w v y name wildcard arguments options words named left args right left'
      settings right' =>
    have hname : aggregateName (rest.prepend (x ++ (w ++ l :: (v ++ r :: l' :: (y ++ [r']))))) =
        .ok name (rest.prepend (l :: (v ++ r :: l' :: (y ++ [r'])))) := by
      rw [← List.append_assoc, ← Tokens.prepend_prepend]
      exact aggregateName_complete words named (by simp [left])
    have hargs : aggregateArguments (rest.prepend (v ++ r :: l' :: (y ++ [r']))) =
        .ok (wildcard, arguments) (rest.prepend (r :: l' :: (y ++ [r']))) := by
      rw [← Tokens.prepend_prepend]
      exact aggregateArguments_complete args right
    have hoptions : commaSeparated aggregateOption (rest.prepend (y ++ [r'])) =
        .ok options (rest.prepend [r']) := by
      rw [← Tokens.prepend_prepend]
      refine commaSeparated_complete aggregateOption_complete (by decide) settings ?_
      rw [Tokens.current_prepend_cons, right']
      decide
    simp only [aggregate, aggregateBody, aggregateSignature, before_eq_ok, bind_eq_ok,
      catchUp_eq_ok, pure_eq_ok]
    exact ⟨_, ⟨(name, wildcard, arguments), _,
      ⟨_, ⟨_, ⟨name, _, ⟨_, hname, expect_of_eq left⟩, (wildcard, arguments), _, hargs, rfl, rfl⟩,
        expect_of_eq right⟩, expect_of_eq left'⟩,
      options, _, hoptions, rfl, rfl⟩, expect_of_eq right'⟩

/-! ### Statements -/

theorem AggregateWords.exists_cons {w : List Token} (h : AggregateWords w) :
    ∃ t v, w = t :: v ∧ (t.kind = .keyword .aggregate ∨ t.kind = .keyword .ordered) := by
  cases h with
  | plain h =>
    obtain ⟨t, rfl, ht⟩ := List.map_eq_singleton_iff.1 h
    exact ⟨t, [], rfl, .inl ht⟩
  | ordered h =>
    obtain ⟨t, v, rfl, ht, -⟩ := List.map_eq_cons_iff.1 h
    exact ⟨t, v, rfl, .inr ht⟩

/-- A declaration is read up to its semicolon. -/
theorem declaration_complete : Complete declaration Declared (· = .semicolon) := by
  intro w body rest h hrest
  rw [declaration, current_bind]
  cases h with
  | function h =>
    have hread := function_complete h hrest
    cases h with
    | intro mark =>
      rw [Tokens.current_prepend_cons, mark]
      exact bind_of_eq_ok hread
  | @aggregate d h =>
    have hread : aggregate (rest.prepend w) = .ok d rest := aggregate_complete h trivial
    cases h with
    | intro words =>
      obtain ⟨t, v, rfl, ht⟩ := words.exists_cons
      rw [List.cons_append, Tokens.current_prepend_cons]
      rcases ht with ht | ht <;> rw [ht] <;> exact bind_of_eq_ok hread

/-- What follows the words that begin a declaration. -/
theorem createRest_complete {w : List Token} {s : Token} {body : StatementBody}
    (h : Declared w body) (hs : s.kind = .semicolon) :
    (do
      let body ← declaration
      expect .semicolon
      return body : Parser StatementBody) (rest.prepend (w ++ [s])) = .ok body rest := by
  have hread : declaration ((rest.prepend [s]).prepend w) = .ok body (rest.prepend [s]) :=
    declaration_complete h hs
  rw [← Tokens.prepend_prepend, bind_of_eq_ok hread, expect_bind_of_eq (by simpa using hs)]
  rfl

/-- What is declared does not begin with the `OR` of `OR REPLACE`. -/
theorem Declared.exists_cons {w : List Token} {body : StatementBody} (h : Declared w body) :
    ∃ t v, w = t :: v ∧ t.kind ≠ .keyword .or_ := by
  cases h with
  | function h =>
    cases h with
    | intro mark => exact ⟨_, _, rfl, by simp [mark]⟩
  | aggregate h =>
    cases h with
    | intro words =>
      obtain ⟨t, v, rfl, ht⟩ := words.exists_cons
      exact ⟨t, _, rfl, by rcases ht with h | h <;> simp [h]⟩

/-- Every sentence is read as the declaration that it is, and nothing after it is read. -/
theorem create_complete : Complete create Sentence fun _ => True := by
  rintro _ body rest ⟨words, h, stop⟩ -
  have hread := @createRest_complete rest _ _ _ h stop
  cases words with
  | plain hwords =>
    obtain ⟨c, rfl, hc⟩ := List.map_eq_singleton_iff.1 hwords
    -- what is declared does not begin with `OR`
    obtain ⟨t, v, rfl, ht⟩ := h.exists_cons
    rw [create, List.singleton_append, expect_bind_of_eq (by simpa using hc),
      Tokens.advance_prepend_cons, accept_bind_of_ne (by simpa using ht)]
    exact hread
  | orReplace hwords =>
    obtain ⟨c, w, rfl, hc, hwords⟩ := List.map_eq_cons_iff.1 hwords
    obtain ⟨o, w, rfl, ho, hwords⟩ := List.map_eq_cons_iff.1 hwords
    obtain ⟨r, rfl, hr⟩ := List.map_eq_singleton_iff.1 hwords
    simp only [List.cons_append, List.nil_append]
    rw [create, expect_bind_of_eq (by simpa using hc), Tokens.advance_prepend_cons,
      accept_bind_of_eq (by simpa using ho), Tokens.advance_prepend_cons, if_pos rfl,
      expect_bind_of_eq (by simpa using hr), Tokens.advance_prepend_cons]
    exact hread

end Grammar

end SqlStubs
