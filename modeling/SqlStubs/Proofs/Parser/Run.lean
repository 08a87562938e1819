import SqlStubs.Parser

/-!
# Runs of a parser

What a run of the basic parsers means, so that no later proof has to open the monad they are written
in.  A run that succeeds is peeled apart from left to right by `bind_eq_ok` and its companions, and
put together again by `bind_of_eq_ok`.  The tokens that a run takes are those in front of the tokens
it leaves: `rest.prepend w` is `rest` with the tokens `w` before it.
-/

namespace SqlStubs

namespace Tokens

/-- The tokens with others put in front of them. -/
def prepend (w : List Token) (ts : Tokens) : Tokens := ⟨w ++ ts.pending, ts.stop⟩

@[simp] theorem prepend_nil (ts : Tokens) : ts.prepend [] = ts := rfl

@[simp] theorem prepend_prepend (ts : Tokens) (w v : List Token) :
    (ts.prepend v).prepend w = ts.prepend (w ++ v) := by
  simp [prepend]

@[simp] theorem pending_prepend (ts : Tokens) (w : List Token) :
    (ts.prepend w).pending = w ++ ts.pending := rfl

@[simp] theorem current_prepend_cons (ts : Tokens) (t : Token) (w : List Token) :
    (ts.prepend (t :: w)).current = t := rfl

@[simp] theorem peek_prepend_cons (ts : Tokens) (t : Token) (w : List Token) :
    (ts.prepend (t :: w)).peek = (ts.prepend w).current := rfl

@[simp] theorem advance_prepend_cons (ts : Tokens) (t : Token) (w : List Token) :
    (ts.prepend (t :: w)).advance = ts.prepend w := rfl

@[simp] theorem size_prepend (ts : Tokens) (w : List Token) :
    (ts.prepend w).size = w.length + ts.size := by
  simp [size]

/-- What holds of the first token of a phrase, and of the one after the phrase in case it is empty,
holds of the first token of both. -/
theorem current_prepend_of (P : Kind → Prop) {ts : Tokens} {w : List Token}
    (hw : ∀ t ∈ w.head?, P t.kind) (hts : P ts.current.kind) : P (ts.prepend w).current.kind := by
  cases w with
  | nil => exact hts
  | cons t w => exact hw t rfl

/-- A first token that is not the end is one of the tokens. -/
theorem eq_prepend_of_current_ne_eof {ts : Tokens} (h : ts.current.kind ≠ .eof) :
    ts = ts.advance.prepend [ts.current] := by
  obtain ⟨pending, stop⟩ := ts
  cases pending with
  | nil => exact absurd rfl h
  | cons t pending => rfl

/-- What holds of the first token and not of the end tells the two apart. -/
theorem eq_prepend_of_kind (P : Kind → Prop) {ts : Tokens} (h : P ts.current.kind)
    (heof : ¬P .eof) : ts = ts.advance.prepend [ts.current] := by
  refine eq_prepend_of_current_ne_eof fun hkind => heof ?_
  rwa [← hkind]

end Tokens

namespace Parser

variable {α β : Type} {ts rest : Tokens}

/-! ### Peeling a run apart -/

/-- A run of two parsers one after the other succeeds if both do, the second one on what the first
one leaves. -/
theorem bind_eq_ok {p : Parser α} {f : α → Parser β} {b : β} :
    (p >>= f) ts = .ok b rest ↔ ∃ a mid, p ts = .ok a mid ∧ f a mid = .ok b rest := by
  show EStateM.bind p f ts = _ ↔ _
  unfold EStateM.bind
  cases h : p ts with
  | ok a mid =>
    constructor
    · intro hf
      exact ⟨a, mid, rfl, hf⟩
    · rintro ⟨a', mid', ha, hf⟩
      cases ha
      exact hf
  | error e mid => simp

theorem pure_eq_ok {a b : α} : (pure a : Parser α) ts = .ok b rest ↔ a = b ∧ ts = rest := by
  show EStateM.pure a ts = _ ↔ _
  simp [EStateM.pure]

/-- A parser whose value is not used succeeds on the same tokens. -/
theorem discard_eq_ok {p : Parser α} {u : PUnit} :
    (discard p : Parser PUnit) ts = .ok u rest ↔ ∃ a, p ts = .ok a rest := by
  show EStateM.map (Function.const α PUnit.unit) p ts = _ ↔ _
  unfold EStateM.map
  cases h : p ts <;> simp

/-- A look at the first token takes nothing. -/
theorem current_eq_ok {t : Token} :
    (current : Parser Token) ts = .ok t rest ↔ ts.current = t ∧ ts = rest := by
  simp [current]

theorem peek_eq_ok {t : Token} :
    (peek : Parser Token) ts = .ok t rest ↔ ts.peek = t ∧ ts = rest := by
  simp [peek]

theorem next_eq_ok {u : Unit} : next ts = .ok u rest ↔ ts.advance = rest := by
  simp [next]

/-- A parser that fails does not succeed on any tokens. -/
theorem fail_ne_ok {cause : Token → SyntaxCause} {a : α} :
    (fail cause : Parser α) ts ≠ .ok a rest := by
  simp [fail]

theorem unexpected_ne_ok {expected : Expectation} {a : α} :
    (unexpected expected : Parser α) ts ≠ .ok a rest := fail_ne_ok

/-- A token of the kind is there and is taken. -/
theorem accept_eq_ok_true {kind : Kind} :
    accept kind ts = .ok true rest ↔ ts.current.kind = kind ∧ ts.advance = rest := by
  unfold accept
  split <;> simp_all

/-- No token of the kind is there, and nothing is taken. -/
theorem accept_eq_ok_false {kind : Kind} :
    accept kind ts = .ok false rest ↔ ts.current.kind ≠ kind ∧ ts = rest := by
  unfold accept
  split <;> simp_all

/-- Only after an error is anything caught up. -/
theorem catchUp_eq_ok {p : Parser α} {f : Tokens → Tokens} {a : α} :
    p.catchUp f ts = .ok a rest ↔ p ts = .ok a rest := by
  unfold catchUp
  cases h : p ts <;> simp

/-- The token that was looked for is there and is taken. -/
theorem expect_eq_ok {kind : Kind} {u : Unit} :
    expect kind ts = .ok u rest ↔ ts.current.kind = kind ∧ ts.advance = rest := by
  simp only [expect, bind_eq_ok, Bool.exists_bool]
  constructor
  · rintro (⟨mid, h, hn⟩ | ⟨mid, h, hp⟩)
    · simp only [Bool.false_eq_true, if_false] at hn
      -- without the token the run is over with an error
      exact absurd hn unexpected_ne_ok
    · simp only [if_true, pure_eq_ok] at hp
      rw [← hp.2]
      exact accept_eq_ok_true.1 h
  · intro h
    refine .inr ⟨rest, accept_eq_ok_true.2 h, ?_⟩
    simp [pure_eq_ok]

/-- What stands before a token is read, and then the token is taken. -/
theorem before_eq_ok {p : Parser α} {kind : Kind} {a : α} :
    p.before kind ts = .ok a rest ↔ ∃ mid, p ts = .ok a mid ∧ expect kind mid = .ok () rest := by
  simp only [before, bind_eq_ok, pure_eq_ok, catchUp_eq_ok]
  constructor
  · rintro ⟨b, mid, hp, u, mid', he, rfl, rfl⟩
    exact ⟨mid, hp, he⟩
  · rintro ⟨mid, hp, he⟩
    exact ⟨a, mid, hp, (), rest, he, rfl, rfl⟩

/-! ### Putting a run together -/

theorem bind_of_eq_ok {p : Parser α} {f : α → Parser β} {a : α} {mid : Tokens}
    (h : p ts = .ok a mid) : (p >>= f) ts = f a mid := by
  show EStateM.bind p f ts = _
  unfold EStateM.bind
  rw [h]

/-- An error of the first parser is that of both. -/
theorem bind_of_eq_error {p : Parser α} {f : α → Parser β} {e : SyntaxError} {mid : Tokens}
    (h : p ts = .error e mid) : (p >>= f) ts = .error e mid := by
  show EStateM.bind p f ts = _
  unfold EStateM.bind
  rw [h]

theorem current_bind {f : Token → Parser β} : (current >>= f) ts = f ts.current ts := rfl

theorem peek_bind {f : Token → Parser β} : (peek >>= f) ts = f ts.peek ts := rfl

theorem next_bind {f : Unit → Parser β} : (next >>= f) ts = f () ts.advance := rfl

theorem accept_bind_of_eq {kind : Kind} {f : Bool → Parser β} (h : ts.current.kind = kind) :
    (accept kind >>= f) ts = f true ts.advance :=
  bind_of_eq_ok (accept_eq_ok_true.2 ⟨h, rfl⟩)

theorem accept_bind_of_ne {kind : Kind} {f : Bool → Parser β} (h : ts.current.kind ≠ kind) :
    (accept kind >>= f) ts = f false ts :=
  bind_of_eq_ok (accept_eq_ok_false.2 ⟨h, rfl⟩)

theorem expect_of_eq {kind : Kind} (h : ts.current.kind = kind) :
    expect kind ts = .ok () ts.advance :=
  expect_eq_ok.2 ⟨h, rfl⟩

theorem expect_bind_of_eq {kind : Kind} {f : Unit → Parser β} (h : ts.current.kind = kind) :
    (expect kind >>= f) ts = f () ts.advance :=
  bind_of_eq_ok (expect_of_eq h)

/-- A token that is missing is an error at the token that stands there. -/
theorem expect_of_ne {kind : Kind} (h : ts.current.kind ≠ kind) :
    expect kind ts = (unexpected (.token kind) : Parser Unit) ts :=
  accept_bind_of_ne h

/-- A repetition goes on as long as an item begins and takes something. -/
theorem many_of_item {starts : Kind → Bool} {item : Parser α} {a : α} {as : List α} {mid : Tokens}
    (hs : starts ts.current.kind = true) (hitem : item ts = .ok a mid) (hlt : mid.size < ts.size)
    (hmany : many starts item mid = .ok as rest) : many starts item ts = .ok (a :: as) rest := by
  rw [many, if_pos hs, hitem]
  simp only [if_pos hlt, hmany]

/-- A repetition is over where no item begins. -/
theorem many_of_not_starts {starts : Kind → Bool} {item : Parser α}
    (hs : starts ts.current.kind = false) : many starts item ts = .ok [] ts := by
  rw [many, if_neg (by simp [hs])]

end Parser

end SqlStubs
