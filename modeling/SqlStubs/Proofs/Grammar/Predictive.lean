import SqlStubs.Proofs.Grammar.Completeness

/-!
# Parsers that are decided by one token at a time

`PredictiveAt p L ts` says that what `p` does on `ts` is decided by the tokens that it takes and the
one at which it stops: it takes a phrase of `L`, or it takes tokens that begin one and fails.  Every
way to build parsers keeps this.

A parser that looks one token further before it takes any is the one difficulty.  For it the first
token has to be one that is taken (`PredictiveAt.lookahead`), and this is known where there is
something with this first token that the parser succeeds on.
-/

namespace SqlStubs

open SqlStubs.Parser

namespace Grammar

variable {α β : Type} {ts rest : Tokens}

/-- Some phrase begins with these tokens. -/
def Viable (L : List Token → Prop) (v : List Token) : Prop := ∃ w, L (v ++ w)

/-- The phrases of `G`, whatever their values. -/
def Phrases (G : List Token → α → Prop) (w : List Token) : Prop := ∃ a, G w a

/-- Some token of a kind. -/
def sample (kind : Kind) : Token := ⟨kind, [], {}⟩

/-- An error is at a token: at its place, and because of it if it cannot be read. -/
structure ErrorAt (e : SyntaxError) (t : Token) : Prop where
  location : e.location = t.location
  cause : ∃ cause : SyntaxCause, cause.isLexical = false ∧ e.cause = .atToken t cause

/-- `p` takes the phrase `v` in front of `rest`, and does so whatever follows the next token. -/
structure Takes (p : Parser α) (L : List Token → Prop) (ts : Tokens) (a : α) (v : List Token)
    (rest : Tokens) : Prop where
  eq : ts = rest.prepend v
  phrase : L v
  again : ∀ rest' : Tokens, rest'.current = rest.current → p (rest'.prepend v) = .ok a rest'

/-- `p` takes the tokens `v`, which begin a phrase, and fails at the next token, whatever follows
it. -/
structure Stops (p : Parser α) (L : List Token → Prop) (ts : Tokens) (e : SyntaxError)
    (v : List Token) (rest : Tokens) : Prop where
  eq : ts = rest.prepend v
  error : ErrorAt e rest.current
  viable : Viable L v
  again : ∀ rest' : Tokens, rest'.current = rest.current →
    ∃ left, p (rest'.prepend v) = .error e left

/-- What `p` does on `ts` is decided by the tokens that it takes and the one at which it stops. -/
def PredictiveAt (p : Parser α) (L : List Token → Prop) (ts : Tokens) : Prop :=
  (∃ a v rest, Takes p L ts a v rest) ∨ ∃ e v rest, Stops p L ts e v rest

/-- Wherever it starts, `p` is predictive. -/
def Predictive (p : Parser α) (L : List Token → Prop) : Prop := ∀ ts, PredictiveAt p L ts

variable {p : Parser α} {L M N : List Token → Prop}

/-- The first token does not depend on what follows the next one. -/
theorem current_prepend_eq {rest' : Tokens} (h : rest'.current = rest.current) (v : List Token) :
    (rest'.prepend v).current = (rest.prepend v).current := by
  cases v with
  | nil => exact h
  | cons t v => rfl

/-- A parser that takes something leaves less. -/
theorem ne_prepend_cons (rest : Tokens) (t : Token) (w : List Token) :
    rest ≠ rest.prepend (t :: w) := by
  intro h
  have hsize := congrArg Tokens.size h
  rw [Tokens.size_prepend, List.length_cons] at hsize
  omega

/-- What begins a phrase also begins a longer one, after other tokens. -/
theorem Viable.append {w v : List Token} (hv : Viable M v) (hN : ∀ u, M u → N (w ++ u)) :
    Viable N (w ++ v) := by
  obtain ⟨u, hu⟩ := hv
  exact ⟨u, by simpa using hN _ hu⟩

/-! ### Ways to build parsers -/

/-- What is known of the tokens themselves may be used to see that they are, or begin, another
phrase. -/
theorem PredictiveAt.imp (hp : PredictiveAt p L ts)
    (hphrase : ∀ v rest, ts = Tokens.prepend v rest → L v → N v)
    (hviable : ∀ v rest, ts = Tokens.prepend v rest → Viable L v → Viable N v) :
    PredictiveAt p N ts := by
  rcases hp with ⟨a, v, rest, h⟩ | ⟨e, v, rest, h⟩
  · exact .inl ⟨a, v, rest, h.eq, hphrase v rest h.eq h.phrase, h.again⟩
  · exact .inr ⟨e, v, rest, h.eq, h.error, hviable v rest h.eq h.viable, h.again⟩

/-- Every phrase of one kind may be one of another. -/
theorem PredictiveAt.mono (hp : PredictiveAt p L ts) (hN : ∀ w, L w → N w) :
    PredictiveAt p N ts :=
  hp.imp (fun v _ _ hv => hN v hv) fun _ _ _ ⟨w, hw⟩ => ⟨w, hN _ hw⟩

/-- A phrase that starts with this token, if some phrase starts with a token like it. -/
theorem PredictiveAt.starting (P : Token → Prop) (hp : PredictiveAt p L ts) (hP : P ts.current)
    (hL : ∃ w, L w ∧ ∀ t ∈ w.head?, P t) :
    PredictiveAt p (fun w => L w ∧ ∀ t ∈ w.head?, P t) ts := by
  refine hp.imp (fun v rest hts hv => ⟨hv, fun t ht => ?_⟩) fun v rest hts hv => ?_
  · rwa [@eq_current_of_mem_head? rest v t ht, ← hts]
  · cases v with
    | nil => exact hL
    | cons t v =>
      obtain ⟨w, hw⟩ := hv
      refine ⟨w, hw, fun s hs => ?_⟩
      cases hs
      rwa [hts] at hP

theorem pure_predictive {a : α} (hL : L []) : Predictive (pure a : Parser α) L :=
  fun ts => .inl ⟨a, [], ts, rfl, hL, fun _ _ => rfl⟩

/-- A parser that always fails takes nothing, and nothing begins every phrase. -/
theorem fail_predictive {cause : Token → SyntaxCause} (hcause : ∀ t, (cause t).isLexical = false)
    (hL : ∃ w, L w) : Predictive (fail cause : Parser α) L := by
  intro ts
  refine .inr ⟨⟨ts.current.location, .atToken ts.current (cause ts.current)⟩, [], ts, rfl,
    ⟨rfl, cause ts.current, hcause _, rfl⟩, hL, fun rest' h => ?_⟩
  rw [Tokens.prepend_nil, fail, h]
  exact ⟨rest', rfl⟩

theorem unexpected_predictive {expected : Expectation} (hL : ∃ w, L w) :
    Predictive (unexpected expected : Parser α) L := fail_predictive (fun _ => rfl) hL

/-- A parser that goes on after another.  Only of the second it has to be known that it has phrases
at all. -/
theorem PredictiveAt.bind {f : α → Parser β} (hp : PredictiveAt p L ts)
    (hf : ∀ a, Predictive (f a) M) (hM : ∃ v, M v) (hN : ∀ w v, L w → M v → N (w ++ v)) :
    PredictiveAt (p >>= f) N ts := by
  rcases hp with ⟨a, w, mid, h⟩ | ⟨e, w, rest, h⟩
  · rcases hf a mid with ⟨b, v, rest, h'⟩ | ⟨e, v, rest, h'⟩
    · refine .inl ⟨b, w ++ v, rest, ?_, hN w v h.phrase h'.phrase, fun rest' hrest => ?_⟩
      · rw [h.eq, h'.eq, Tokens.prepend_prepend]
      · rw [← Tokens.prepend_prepend, bind_of_eq_ok (h.again _ ?_), h'.again rest' hrest]
        rw [current_prepend_eq hrest, ← h'.eq]
    · refine .inr ⟨e, w ++ v, rest, ?_, h'.error, ?_, fun rest' hrest => ?_⟩
      · rw [h.eq, h'.eq, Tokens.prepend_prepend]
      · exact h'.viable.append fun u hu => hN w u h.phrase hu
      · obtain ⟨left, hleft⟩ := h'.again rest' hrest
        refine ⟨left, ?_⟩
        rw [← Tokens.prepend_prepend, bind_of_eq_ok (h.again _ ?_), hleft]
        rw [current_prepend_eq hrest, ← h'.eq]
  -- the first parser fails, and what it has taken is completed by a phrase of each
  · obtain ⟨u, hu⟩ := h.viable
    obtain ⟨v, hv⟩ := hM
    refine .inr ⟨e, w, rest, h.eq, h.error, ⟨u ++ v, ?_⟩, fun rest' hrest => ?_⟩
    · rw [← List.append_assoc]
      exact hN _ v hu hv
    · obtain ⟨left, hleft⟩ := h.again rest' hrest
      exact ⟨left, bind_of_eq_error hleft⟩

theorem PredictiveAt.bind_pure {f : α → β} (hp : PredictiveAt p L ts) (hN : ∀ w, L w → N w) :
    PredictiveAt (do return f (← p)) N ts := by
  refine hp.bind (M := (· = [])) (fun a => pure_predictive rfl) ⟨[], rfl⟩ ?_
  rintro w v hw rfl
  rw [List.append_nil]
  exact hN w hw

/-- Parsers that go on in the same way after they did the same. -/
theorem bind_eq_bind {q : Parser α} {f : α → Parser β} {us : Tokens} (h : p us = q ts) :
    (p >>= f) us = (q >>= f) ts := by
  show EStateM.bind p f us = EStateM.bind q f ts
  unfold EStateM.bind
  rw [h]

/-- Parsers that do the same wherever the first token is this one. -/
theorem PredictiveAt.congr {q : Parser α} (hq : PredictiveAt q L ts)
    (hsame : ∀ us : Tokens, us.current = ts.current → p us = q us) : PredictiveAt p L ts := by
  have hrun : ∀ {v : List Token} {rest rest' : Tokens}, ts = rest.prepend v →
      rest'.current = rest.current → p (rest'.prepend v) = q (rest'.prepend v) := by
    intro v rest rest' hts hrest
    refine hsame _ ?_
    rw [current_prepend_eq hrest, ← hts]
  rcases hq with ⟨a, v, rest, h⟩ | ⟨e, v, rest, h⟩
  · refine .inl ⟨a, v, rest, h.eq, h.phrase, fun rest' hrest => ?_⟩
    rw [hrun h.eq hrest, h.again rest' hrest]
  · refine .inr ⟨e, v, rest, h.eq, h.error, h.viable, fun rest' hrest => ?_⟩
    rw [hrun h.eq hrest]
    exact h.again rest' hrest

/-- A look at the first token. -/
theorem current_bind_predictive {f : Token → Parser α} (hf : PredictiveAt (f ts.current) N ts) :
    PredictiveAt (current >>= f) N ts :=
  hf.congr fun us hus => by rw [current_bind, hus]

/-- A parser that takes one token, after a look at the next one if need be, and goes on as `q`. -/
theorem PredictiveAt.cons {q : Parser α} {t : Token} {us : Tokens} (hq : PredictiveAt q M us)
    (hts : ts = us.prepend [t])
    (hp : ∀ us' : Tokens, us'.current = us.current → p (us'.prepend [t]) = q us')
    (hN : ∀ v, M v → N (t :: v)) : PredictiveAt p N ts := by
  have hrun : ∀ {v : List Token} {rest rest' : Tokens}, us = rest.prepend v →
      rest'.current = rest.current → p (rest'.prepend (t :: v)) = q (rest'.prepend v) := by
    intro v rest rest' hus hrest
    rw [← hp (rest'.prepend v) (by rw [current_prepend_eq hrest, ← hus]), Tokens.prepend_prepend]
    rfl
  rcases hq with ⟨a, v, rest, h⟩ | ⟨e, v, rest, h⟩
  · refine .inl ⟨a, t :: v, rest, ?_, hN v h.phrase, fun rest' hrest => ?_⟩
    · rw [hts, h.eq, Tokens.prepend_prepend]
      rfl
    · rw [hrun h.eq hrest, h.again rest' hrest]
  · refine .inr ⟨e, t :: v, rest, ?_, h.error, ?_, fun rest' hrest => ?_⟩
    · rw [hts, h.eq, Tokens.prepend_prepend]
      rfl
    · exact @Viable.append M N [t] v h.viable hN
    · rw [hrun h.eq hrest]
      exact h.again rest' hrest

/-- A kind with a property that the end does not have. -/
theorem kind_ne_eof (P : Kind → Prop) {kind : Kind} (h : P kind) (heof : ¬P .eof) :
    kind ≠ .eof := by
  rintro rfl
  exact heof h

/-- A token that is taken unseen. -/
theorem next_bind_predictive {f : Unit → Parser α} (hne : ts.current.kind ≠ .eof)
    (hf : Predictive (f ()) M) (hN : ∀ v, M v → N (ts.current :: v)) :
    PredictiveAt (next >>= f) N ts :=
  (hf _).cons (Tokens.eq_prepend_of_current_ne_eof hne) (fun _ _ => rfl) hN

/-- A token that is taken unseen, and nothing more. -/
theorem next_pure_predictive {a : α} (hne : ts.current.kind ≠ .eof) (hN : N [ts.current]) :
    PredictiveAt (do next; return a : Parser α) N ts := by
  refine next_bind_predictive hne (M := (· = [])) (pure_predictive rfl) ?_
  rintro v rfl
  exact hN

/-- A token that may be there. -/
theorem accept_bind_predictive {kind : Kind} {f : Bool → Parser α} (hk : kind ≠ .eof)
    (htrue : Predictive (f true) M)
    (hfalse : ts.current.kind ≠ kind → PredictiveAt (f false) N ts)
    (hN : ∀ t v, t.kind = kind → M v → N (t :: v)) : PredictiveAt (accept kind >>= f) N ts := by
  by_cases h : ts.current.kind = kind
  · refine (htrue _).cons (Tokens.eq_prepend_of_current_ne_eof (h ▸ hk)) (fun us' _ => ?_)
      fun v hv => hN _ v h hv
    exact accept_bind_of_eq h
  · exact (hfalse h).congr fun us hus => accept_bind_of_ne (by rwa [hus])

/-- A look at the first two tokens, before `q` goes on.  If more than the first one matters, then
`q` is known not to stop at it: with this token in front there is something that it takes. -/
theorem PredictiveAt.lookahead {q : Parser α} (hq : PredictiveAt q L ts)
    (hsame : ∀ us : Tokens, us.current = ts.current → us.peek = ts.peek → p us = q us)
    (htakes : (∀ us : Tokens, us.current = ts.current → p us = q us) ∨
      ∃ us a rest, us.current = ts.current ∧ q us = .ok a rest ∧ rest ≠ us) :
    PredictiveAt p L ts := by
  rcases htakes with hfirst | ⟨us, b, left, hus, hrun, hne⟩
  · exact hq.congr hfirst
  have hagain : ∀ {t : Token} {v : List Token} {rest rest' : Tokens}, ts = rest.prepend (t :: v) →
      rest'.current = rest.current → p (rest'.prepend (t :: v)) = q (rest'.prepend (t :: v)) := by
    intro t v rest rest' hts hrest
    refine hsame _ (by rw [hts]; rfl) ?_
    rw [hts, Tokens.peek_prepend_cons, Tokens.peek_prepend_cons, current_prepend_eq hrest]
  rcases hq with ⟨a, v, rest, h⟩ | ⟨e, v, rest, h⟩
  · cases v with
    | nil =>
      -- `q` takes nothing here, so it takes nothing of `us` either
      have hnothing := h.again us (hus.trans (by rw [h.eq]; rfl))
      rw [Tokens.prepend_nil, hrun] at hnothing
      cases hnothing
      exact absurd rfl hne
    | cons t v =>
      refine .inl ⟨a, t :: v, rest, h.eq, h.phrase, fun rest' hrest => ?_⟩
      rw [hagain h.eq hrest, h.again rest' hrest]
  · cases v with
    | nil =>
      -- `q` fails at the first token, so it fails on `us` too
      obtain ⟨left', hfails⟩ := h.again us (hus.trans (by rw [h.eq]; rfl))
      rw [Tokens.prepend_nil, hrun] at hfails
      cases hfails
    | cons t v =>
      refine .inr ⟨e, t :: v, rest, h.eq, h.error, h.viable, fun rest' hrest => ?_⟩
      rw [hagain h.eq hrest]
      exact h.again rest' hrest

/-- What is caught up after an error is no part of what is decided. -/
theorem Predictive.catchUp {f : Tokens → Tokens} (hp : Predictive p L) :
    Predictive (p.catchUp f) L := by
  intro ts
  rcases hp ts with ⟨a, v, rest, h⟩ | ⟨e, v, rest, h⟩
  · exact .inl ⟨a, v, rest, h.eq, h.phrase, fun rest' hrest =>
      catchUp_eq_ok.2 (h.again rest' hrest)⟩
  · refine .inr ⟨e, v, rest, h.eq, h.error, h.viable, fun rest' hrest => ?_⟩
    obtain ⟨left, hleft⟩ := h.again rest' hrest
    rw [Parser.catchUp, hleft]
    exact ⟨f left, rfl⟩

theorem Predictive.discard (hp : Predictive p L) :
    Predictive (Functor.discard p : Parser PUnit) L := by
  have heq : (Functor.discard p : Parser PUnit) = p >>= fun _ => pure ⟨⟩ := by
    funext ts
    show EStateM.map _ p ts = EStateM.bind p _ ts
    unfold EStateM.map EStateM.bind
    cases p ts <;> rfl
  rw [heq]
  exact fun ts => (hp ts).bind_pure fun _ hw => hw

/-- One token that has to be there. -/
theorem expect_predictive {kind : Kind} (hk : kind ≠ .eof) :
    Predictive (expect kind) (Spells [kind]) := by
  intro ts
  refine accept_bind_predictive hk (M := (· = [])) (pure_predictive rfl) (fun _ => ?_) ?_
  · show PredictiveAt (unexpected (.token kind)) (Spells [kind]) ts
    exact unexpected_predictive (L := Spells [kind]) ⟨[sample kind], rfl⟩ ts
  · rintro t v ht rfl
    simpa using ht

theorem accept_predictive {kind : Kind} (hk : kind ≠ .eof) :
    Predictive (accept kind) (fun w => w = [] ∨ Spells [kind] w) := by
  intro ts
  rw [← bind_pure (accept kind)]
  refine accept_bind_predictive hk (M := (· = [])) (pure_predictive rfl) (fun _ => ?_) ?_
  · exact pure_predictive (L := fun w => w = [] ∨ Spells [kind] w) (.inl rfl) ts
  · rintro t v ht rfl
    exact .inr (spells_cons.2 ⟨ht, rfl⟩)

/-- Several tokens that have to be there, one after the other. -/
theorem expectAll_predictive {kinds : List Kind} (hk : .eof ∉ kinds) :
    Predictive (expectAll kinds) (Spells kinds) := by
  induction kinds with
  | nil => exact pure_predictive rfl
  | cons kind kinds ih =>
    rw [List.mem_cons, not_or] at hk
    intro ts
    refine (expect_predictive (Ne.symm hk.1) ts).bind (fun _ => ih hk.2)
      ⟨kinds.map sample, by simp [Spells, sample, Function.comp_def]⟩ fun w v hw hv => ?_
    rw [Spells] at hw hv ⊢
    rw [List.map_append, hw, hv]
    rfl

/-- A phrase and a token of a kind after it. -/
def Followed (L : List Token → Prop) (kind : Kind) (w : List Token) : Prop :=
  ∃ v t, w = v ++ [t] ∧ L v ∧ t.kind = kind

/-- A phrase and the token that has to follow it. -/
theorem Predictive.before {kind : Kind} (hp : Predictive p L) (hk : kind ≠ .eof) :
    Predictive (p.before kind) (Followed L kind) := by
  intro ts
  have hrest : ∀ a, Predictive (do expect kind; return a : Parser α) (Spells [kind]) :=
    fun a ts => (expect_predictive hk ts).bind_pure fun _ hw => hw
  refine (hp.catchUp ts).bind hrest ⟨[sample kind], rfl⟩ fun w v hw hv => ?_
  obtain ⟨t, rfl, ht⟩ := List.map_eq_singleton_iff.1 hv
  exact ⟨w, t, rfl, hw, ht⟩

/-- A repetition, if its items are predictive from where they may begin. -/
theorem many_predictive {starts : Kind → Bool} {item : Parser α} {G : List Token → α → Prop}
    (hitem : ∀ ts : Tokens, starts ts.current.kind = true → PredictiveAt item (Phrases G) ts) :
    Predictive (many starts item) (Phrases (Repeated G)) := by
  intro ts
  -- the induction is on the number of tokens, since an item may take any number of them
  induction hn : ts.size using Nat.strongRecOn generalizing ts with
  | _ n ih =>
    subst hn
    by_cases hs : starts ts.current.kind = true
    · have hstarts : ∀ {v : List Token} {rest rest' : Tokens}, ts = rest.prepend v →
          rest'.current = rest.current → starts (rest'.prepend v).current.kind = true := by
        intro v rest rest' hts hrest
        rwa [current_prepend_eq hrest, ← hts]
      rcases hitem ts hs with ⟨a, w, mid, h⟩ | ⟨e, w, rest, h⟩
      · obtain ⟨value, hvalue⟩ := h.phrase
        cases w with
        | nil =>
          -- the loop stops at an item that took nothing
          refine .inl ⟨[a], [], mid, h.eq, ⟨[], .nil⟩, fun rest' hrest => ?_⟩
          rw [many, if_pos (hstarts h.eq hrest), h.again rest' hrest]
          simp
        | cons t w =>
          have hlt : ∀ us : Tokens, us.size < (us.prepend (t :: w)).size := by
            intro us
            simp only [Tokens.size_prepend, List.length_cons]
            omega
          have hsize : mid.size < ts.size := by
            rw [h.eq]
            exact hlt mid
          rcases ih mid.size hsize mid rfl with ⟨as, v, rest, h'⟩ | ⟨e, v, rest, h'⟩
          · obtain ⟨values, hvalues⟩ := h'.phrase
            refine .inl ⟨a :: as, t :: w ++ v, rest, ?_, ⟨_, .cons hvalue hvalues⟩,
              fun rest' hrest => ?_⟩
            · rw [h.eq, h'.eq, Tokens.prepend_prepend]
            · have hmid : (rest'.prepend v).current = mid.current := by
                rw [current_prepend_eq hrest, ← h'.eq]
              rw [← Tokens.prepend_prepend]
              exact many_of_item (hstarts h.eq hmid) (h.again _ hmid) (hlt _)
                (h'.again rest' hrest)
          · refine .inr ⟨e, t :: w ++ v, rest, ?_, h'.error, ?_, fun rest' hrest => ?_⟩
            · rw [h.eq, h'.eq, Tokens.prepend_prepend]
            · refine h'.viable.append ?_
              rintro u ⟨values, hvalues⟩
              exact ⟨_, .cons hvalue hvalues⟩
            · have hmid : (rest'.prepend v).current = mid.current := by
                rw [current_prepend_eq hrest, ← h'.eq]
              obtain ⟨left, hleft⟩ := h'.again rest' hrest
              refine ⟨left, ?_⟩
              rw [← Tokens.prepend_prepend, many, if_pos (hstarts h.eq hmid), h.again _ hmid]
              simp only [if_pos (hlt _), hleft]
      · -- the item fails, and what it has taken begins a repetition of one item
        refine .inr ⟨e, w, rest, h.eq, h.error, ?_, fun rest' hrest => ?_⟩
        · obtain ⟨u, value, hvalue⟩ := h.viable
          exact ⟨u, [value], by simpa using Repeated.cons hvalue .nil⟩
        · obtain ⟨left, hleft⟩ := h.again rest' hrest
          refine ⟨left, ?_⟩
          rw [many, if_pos (hstarts h.eq hrest), hleft]
    · refine .inl ⟨[], [], ts, rfl, ⟨[], .nil⟩, fun rest' hrest => many_of_not_starts ?_⟩
      rw [Tokens.prepend_nil, hrest]
      simpa using hs

/-- The loop of a separated list: a mark, and an item after it. -/
theorem many_next_predictive {separator : Kind} {item : Parser α} {G : List Token → α → Prop}
    (hk : separator ≠ .eof) (hitem : Predictive item (Phrases G)) :
    Predictive (many (· = separator) do next; item)
      (Phrases (Repeated fun v b => ∃ s u, v = s :: u ∧ s.kind = separator ∧ G u b)) := by
  refine many_predictive fun ts hs => ?_
  have hkind := of_decide_eq_true hs
  refine next_bind_predictive (by rwa [hkind]) hitem ?_
  rintro v ⟨a, hv⟩
  exact ⟨a, _, v, rfl, hkind, hv⟩

/-- A list is decided by its commas. -/
theorem commaSeparated_predictive {item : Parser α} {G : List Token → α → Prop}
    (hitem : Predictive item (Phrases G)) :
    Predictive (commaSeparated item) (Phrases (Separated .comma G)) := by
  intro ts
  have hothers : ∀ first, Predictive (do
      let others ← many (· = .comma) do
        next
        item
      return first :: others : Parser (List α)) _ :=
    fun first ts => (many_next_predictive (by decide) hitem ts).bind_pure fun _ hw => hw
  refine (hitem ts).bind hothers ⟨[], [], .nil⟩ ?_
  rintro w v ⟨a, ha⟩ ⟨as, has⟩
  exact ⟨_, .of_repeated ha has⟩

end Grammar

end SqlStubs
