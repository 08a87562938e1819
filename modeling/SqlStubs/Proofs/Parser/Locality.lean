import SqlStubs.Proofs.Parser.Run

/-!
# A parser stays within its statement

The parsers of a declaration go on after an error as far as they must to take what would have closed
the failed part, so where they stop depends on where they failed.  Still none of them goes past the
end of a statement, a semicolon or the end of the source, or looks at what comes after it: what such
a parser gives and what it leaves of the statement are the same whatever follows (`Local`).  The one
parser that takes a semicolon is the last step of `create`, and it does so only if all before went
well (`create_closes`).

`Local` is closed under everything that parsers are built from.  The one thing to be checked by hand
is a step that takes a token without having asked for its kind: its token must be known not to end
the statement, so `LocalOn` carries what is known of the first token.
-/

namespace SqlStubs

/-- Whether a token of this kind ends a statement. -/
def Kind.endsStatement (kind : Kind) : Bool := kind = .semicolon || kind = .eof

/-- A token within a statement is neither a semicolon nor the end. -/
theorem Kind.endsStatement_eq_false {kind : Kind} :
    kind.endsStatement = false ↔ kind ≠ .semicolon ∧ kind ≠ .eof := by
  simp [endsStatement]

/-- No name ends a statement. -/
theorem Kind.endsStatement_of_isName {kind : Kind} (h : kind.isName = true) :
    kind.endsStatement = false := by
  cases kind <;> first | rfl | cases h

/-- The first token is that of the statement, or the end of the statement if nothing is left. -/
theorem Tokens.current_prepend {tail : Tokens} {e : Token} (w : List Token)
    (h : tail.current = e) : (tail.prepend w).current = w.headD e := by
  cases w with
  | nil => exact h
  | cons t w => rfl

namespace Parser

variable {α β : Type} {K : Token → Prop}

/-- A value or an error, and the tokens that are left. -/
def outcome : Except SyntaxError α → Tokens → EStateM.Result SyntaxError Tokens α
  | .ok a, rest => .ok a rest
  | .error e, rest => .error e rest

/-- On the tokens `w` before the end `e` of their statement, `p` leaves what comes after them alone
and gives the same whatever that is. -/
def LocalAt (p : Parser α) (w : List Token) (e : Token) : Prop :=
  ∃ (r : Except SyntaxError α) (v : List Token), v <:+ w ∧
    ∀ tail : Tokens, tail.current = e → p (tail.prepend w) = outcome r (tail.prepend v)

/-- Wherever it starts with a token in `K`, `p` stays within its statement. -/
def LocalOn (K : Token → Prop) (p : Parser α) : Prop :=
  ∀ (w : List Token) (e : Token), e.kind.endsStatement = true → K (w.headD e) → LocalAt p w e

/-- Wherever it starts, `p` stays within its statement. -/
def Local (p : Parser α) : Prop := LocalOn (fun _ => True) p

/-- What is done to the tokens after an error stays within the statement too. -/
def LocalDrop (f : Tokens → Tokens) : Prop :=
  ∀ (w : List Token) (e : Token), e.kind.endsStatement = true →
    ∃ v, v <:+ w ∧ ∀ tail : Tokens, tail.current = e → f (tail.prepend w) = tail.prepend v

/-! ### Ways to build parsers -/

theorem Local.on {p : Parser α} (hp : Local p) : LocalOn K p :=
  fun w e he _ => hp w e he trivial

/-- If it is enough to know the first token, it is known. -/
theorem LocalOn.at {p : Parser α} {w : List Token} {e : Token} (he : e.kind.endsStatement = true)
    (hp : LocalOn (· = w.headD e) p) : LocalAt p w e := hp w e he rfl

theorem pure_local {a : α} : Local (pure a : Parser α) :=
  fun w _ _ _ => ⟨.ok a, w, List.suffix_rfl, fun _ _ => rfl⟩

/-- Two parsers one after the other stay within the statement if both do.  The first leaves a last
part of the statement, and that is where the second begins. -/
theorem LocalOn.bind {p : Parser α} {f : α → Parser β} (hp : LocalOn K p) (hf : ∀ a, Local (f a)) :
    LocalOn K (p >>= f) := by
  intro w e he hK
  obtain ⟨r, v, hv, hrun⟩ := hp w e he hK
  cases r with
  | error err =>
    refine ⟨.error err, v, hv, fun tail htail => ?_⟩
    exact bind_of_eq_error (hrun tail htail)
  | ok a =>
    obtain ⟨r, u, hu, hrun'⟩ := hf a v e he trivial
    refine ⟨r, u, hu.trans hv, fun tail htail => ?_⟩
    rw [bind_of_eq_ok (hrun tail htail)]
    exact hrun' tail htail

theorem Local.bind {p : Parser α} {f : α → Parser β} (hp : Local p) (hf : ∀ a, Local (f a)) :
    Local (p >>= f) := LocalOn.bind hp hf

/-- After a look at the first token it is known. -/
theorem current_bind_local {f : Token → Parser β} (hf : ∀ t, K t → LocalOn (· = t) (f t)) :
    LocalOn K (current >>= f) := by
  intro w e he hK
  obtain ⟨r, v, hv, hrun⟩ := hf (w.headD e) hK w e he rfl
  refine ⟨r, v, hv, fun tail htail => ?_⟩
  rw [current_bind, Tokens.current_prepend w htail]
  exact hrun tail htail

/-- The token after the first may be looked at, if it does not matter when the first is the end. -/
theorem lookahead_local {f : Token → Token → Parser β}
    (hf : ∀ w e, e.kind.endsStatement = true → LocalAt (f (w.headD e) (w.tail.headD e)) w e)
    (hend : ∀ a b b', a.kind.endsStatement = true → f a b = f a b') :
    Local (do let a ← current; let b ← peek; f a b) := by
  intro w e he _
  obtain ⟨r, v, hv, hrun⟩ := hf w e he
  cases w with
  | nil =>
    -- the second token is one of the tail, so nothing may depend on it
    refine ⟨r, v, hv, fun tail htail => ?_⟩
    rw [current_bind, peek_bind, ← hrun tail htail, Tokens.prepend_nil, htail, hend e _ e he]
    rfl
  | cons t w =>
    refine ⟨r, v, hv, fun tail htail => ?_⟩
    rw [current_bind, peek_bind, Tokens.current_prepend_cons, Tokens.peek_prepend_cons,
      Tokens.current_prepend w htail]
    exact hrun tail htail

/-- A token that does not end the statement may be taken unseen. -/
theorem next_local (hK : ∀ t, K t → t.kind.endsStatement = false) : LocalOn K next := by
  intro w e he hw
  cases w with
  | nil =>
    have hnot := hK e hw
    simp [he] at hnot
  | cons t w => exact ⟨.ok (), w, List.suffix_cons t w, fun _ _ => rfl⟩

/-- A token that is known not to end the statement may be taken. -/
theorem take_local {t : Token} (ht : t.kind.endsStatement = false) : LocalOn (· = t) next :=
  next_local fun s hs => by rw [hs]; exact ht

/-- An error tells of the first token, which is one of the statement or its end. -/
theorem fail_local {cause : Token → SyntaxCause} : Local (fail cause : Parser α) := by
  intro w e _ _
  refine ⟨.error ⟨(w.headD e).location, .atToken (w.headD e) (cause (w.headD e))⟩, w,
    List.suffix_rfl, fun tail htail => ?_⟩
  rw [fail, Tokens.current_prepend w htail]
  rfl

theorem unexpected_local {expected : Expectation} : Local (unexpected expected : Parser α) :=
  fail_local

/-- A token is accepted within the statement, if its kind is none that ends one. -/
theorem accept_local {kind : Kind} (hk : kind.endsStatement = false) : Local (accept kind) := by
  intro w e he _
  by_cases hw : (w.headD e).kind = kind
  · cases w with
    | nil =>
      rw [← hw] at hk
      -- the end of the statement is not of the kind that is looked for
      exact absurd (hk.symm.trans he) (by decide)
    | cons t w =>
      refine ⟨.ok true, w, List.suffix_cons t w, fun tail _ => ?_⟩
      exact accept_eq_ok_true.2 ⟨hw, rfl⟩
  · refine ⟨.ok false, w, List.suffix_rfl, fun tail htail => ?_⟩
    refine accept_eq_ok_false.2 ⟨?_, rfl⟩
    rwa [Tokens.current_prepend w htail]

theorem expect_local {kind : Kind} (hk : kind.endsStatement = false) : Local (expect kind) := by
  refine (accept_local hk).bind fun b => ?_
  cases b
  · exact unexpected_local
  · exact pure_local

/-- Several tokens in a row are taken within the statement, if none of them ends one. -/
theorem expectAll_local {kinds : List Kind} (hk : ∀ k ∈ kinds, k.endsStatement = false) :
    Local (expectAll kinds) := by
  induction kinds with
  | nil => exact pure_local
  | cons kind kinds ih =>
    rw [List.forall_mem_cons] at hk
    exact (expect_local hk.1).bind fun _ => ih hk.2

theorem Local.discard {p : Parser α} (hp : Local p) : Local (Functor.discard p : Parser PUnit) := by
  have heq : (Functor.discard p : Parser PUnit) = p >>= fun _ => pure ⟨⟩ := by
    funext ts
    show EStateM.map _ p ts = EStateM.bind p _ ts
    unfold EStateM.map EStateM.bind
    cases p ts <;> rfl
  rw [heq]
  exact hp.bind fun _ => pure_local

theorem Local.catchUp {p : Parser α} {f : Tokens → Tokens} (hp : Local p) (hf : LocalDrop f) :
    Local (p.catchUp f) := by
  intro w e he _
  obtain ⟨r, v, hv, hrun⟩ := hp w e he trivial
  cases r with
  | ok a =>
    refine ⟨.ok a, v, hv, fun tail htail => ?_⟩
    exact catchUp_eq_ok.2 (hrun tail htail)
  | error err =>
    obtain ⟨u, hu, hdrop⟩ := hf v e he
    refine ⟨.error err, u, hu.trans hv, fun tail htail => ?_⟩
    rw [Parser.catchUp, hrun tail htail]
    show EStateM.Result.error err (f (tail.prepend v)) = _
    rw [hdrop tail htail]
    rfl

/-- A drop of the first token, if it is of some kind that does not end the statement. -/
theorem dropIf_local (P : Kind → Prop) [DecidablePred P] {f g : Tokens → Tokens} (hg : LocalDrop g)
    (hP : ∀ kind, P kind → kind.endsStatement = false)
    (hf : ∀ ts, f ts = if P ts.current.kind then g ts.advance else ts) : LocalDrop f := by
  intro w e he
  by_cases hw : P (w.headD e).kind
  · cases w with
    | nil => exact absurd ((hP _ hw).symm.trans he) (by decide)
    | cons t w =>
      obtain ⟨v, hv, hdrop⟩ := hg w e he
      refine ⟨v, hv.trans (List.suffix_cons t w), fun tail htail => ?_⟩
      have hfirst : P (tail.prepend (t :: w)).current.kind := hw
      rw [hf, if_pos hfirst, Tokens.advance_prepend_cons, hdrop tail htail]
  · refine ⟨w, List.suffix_rfl, fun tail htail => ?_⟩
    rw [hf, Tokens.current_prepend w htail, if_neg hw]

theorem id_local : LocalDrop fun ts => ts := fun w _ _ => ⟨w, List.suffix_rfl, fun _ _ => rfl⟩

/-- A token is dropped within the statement, if its kind is none that ends one. -/
theorem dropKind_local {kind : Kind} (hk : kind.endsStatement = false) :
    LocalDrop (Tokens.dropKind kind) :=
  dropIf_local (· = kind) id_local (fun _ h => h ▸ hk) fun _ => rfl

theorem dropName_local : LocalDrop Tokens.dropName :=
  dropIf_local (·.isName = true) id_local (fun _ h => Kind.endsStatement_of_isName h)
    fun _ => rfl

theorem dropCommaString_local : LocalDrop Tokens.dropCommaString :=
  dropIf_local (· = .comma) (dropKind_local rfl) (fun _ h => h ▸ rfl) fun _ => rfl

theorem dropZoneMark_local : LocalDrop Tokens.dropZoneMark := by
  refine dropIf_local (fun k => k = .keyword .with_ ∨ k = .keyword .without) id_local ?_ ?_
  · rintro _ (rfl | rfl) <;> rfl
  · intro ts
    unfold Tokens.dropZoneMark
    split <;> simp_all

/-- What stands before a token stays within the statement if the token does not end it. -/
theorem Local.before {p : Parser α} {kind : Kind} (hp : Local p) (hk : kind.endsStatement = false) :
    Local (p.before kind) :=
  (hp.catchUp (dropKind_local hk)).bind fun _ => (expect_local hk).bind fun _ => pure_local

/-- A repetition stays within the statement if its items do from where they may begin. -/
theorem many_local {starts : Kind → Bool} {item : Parser α}
    (hitem : LocalOn (fun t => starts t.kind = true) item) : Local (many starts item) := by
  intro w e he _
  -- the induction is on the number of tokens, since an item may take any number of them
  induction hn : w.length using Nat.strongRecOn generalizing w with
  | _ n ih =>
    subst hn
    by_cases hs : starts (w.headD e).kind = true
    · have hstarts : ∀ tail : Tokens, tail.current = e →
          starts (tail.prepend w).current.kind = true := by
        intro tail htail
        rwa [Tokens.current_prepend w htail]
      obtain ⟨r, v, hv, hrun⟩ := hitem w e he hs
      cases r with
      | error err =>
        refine ⟨.error err, v, hv, fun tail htail => ?_⟩
        rw [many, if_pos (hstarts tail htail), hrun tail htail]
        rfl
      | ok a =>
        -- whether an item took anything does not depend on the tail either
        by_cases hlt : v.length < w.length
        · obtain ⟨r, u, hu, hrun'⟩ := ih v.length hlt v rfl
          refine ⟨r.map (a :: ·), u, hu.trans hv, fun tail htail => ?_⟩
          have hsize : (tail.prepend v).size < (tail.prepend w).size := by
            simp only [Tokens.size_prepend]
            omega
          rw [many, if_pos (hstarts tail htail), hrun tail htail]
          simp only [outcome, if_pos hsize, hrun' tail htail]
          cases r <;> rfl
        · refine ⟨.ok [a], v, hv, fun tail htail => ?_⟩
          have hsize : ¬(tail.prepend v).size < (tail.prepend w).size := by
            simp only [Tokens.size_prepend]
            omega
          rw [many, if_pos (hstarts tail htail), hrun tail htail]
          simp only [outcome, if_neg hsize]
    · refine ⟨.ok [], w, List.suffix_rfl, fun tail htail => ?_⟩
      refine many_of_not_starts ?_
      rw [Tokens.current_prepend w htail]
      simpa using hs

/-- A list stays within the statement if its items do, as no comma ends a statement. -/
theorem commaSeparated_local {item : Parser α} (hitem : Local item) :
    Local (commaSeparated item) := by
  refine hitem.bind fun _ => (many_local ?_).bind fun _ => pure_local
  refine (next_local fun t ht => ?_).bind fun _ => hitem
  rw [of_decide_eq_true ht]
  rfl

/-! ### Names and types -/

/-- A name is taken after a look at its kind. -/
theorem identifier_local {expected : Expectation} : Local (identifier expected) := by
  refine current_bind_local fun t _ => ?_
  split
  · rename_i hname
    exact (take_local (Kind.endsStatement_of_isName hname)).bind fun _ => pure_local
  · exact unexpected_local.on

theorem qualifiedName_local {expected : Expectation} : Local (qualifiedName expected) := by
  refine identifier_local.bind fun _ => (many_local ?_).bind fun _ => pure_local
  refine (next_local fun t ht => ?_).bind fun _ => identifier_local
  rw [of_decide_eq_true ht]
  rfl

theorem typeModifiers_local : Local typeModifiers := by
  refine (accept_local rfl).bind fun b => ?_
  cases b
  · exact pure_local
  · refine Local.discard (Local.before (commaSeparated_local ?_) rfl)
    exact (expect_local rfl).catchUp (dropKind_local rfl)

/-- A time type and its zone stay within the statement. -/
theorem zone_local {base : Text} : Local (zone base) := by
  refine (typeModifiers_local.catchUp dropZoneMark_local).bind fun _ => ?_
  refine (accept_local rfl).bind fun b => ?_
  cases b
  · refine (accept_local rfl).bind fun b => ?_
    cases b
    · exact pure_local
    · exact (expectAll_local (by decide)).bind fun _ => pure_local
  · exact (expectAll_local (by decide)).bind fun _ => pure_local

theorem arrayBounds_local : Local arrayBounds := by
  refine (expect_local rfl).bind fun _ => current_bind_local fun t _ => ?_
  split
  · rename_i hinteger
    refine (take_local ?_).bind fun _ => (expect_local rfl).bind fun _ => pure_local
    rw [hinteger]
    rfl
  · exact ((expect_local rfl).bind fun _ => pure_local).on

/-- Neither word of a type ends a statement. -/
theorem twoWordType?_of_endsStatement {k k' : Kind}
    (h : k.endsStatement = true ∨ k'.endsStatement = true) : twoWordType? k k' = none := by
  unfold twoWordType?
  split <;> simp_all [Kind.endsStatement]

/-- The word of a time type does not end a statement. -/
theorem endsStatement_of_timeType? {k : Kind} {name : Text} (h : timeType? k = some name) :
    k.endsStatement = false := by
  unfold timeType? at h
  split at h
  · rfl
  · rfl
  · cases h

/-- If two words are those of a type, both belong to the statement. -/
theorem exists_cons_cons_of_twoWordType? {w : List Token} {e : Token} {name : Text}
    (he : e.kind.endsStatement = true)
    (h : twoWordType? (w.headD e).kind (w.tail.headD e).kind = some name) :
    ∃ a b u, w = a :: b :: u := by
  match w with
  | [] => exact absurd ((twoWordType?_of_endsStatement (.inl he)).symm.trans h) (by simp)
  | [a] => exact absurd ((twoWordType?_of_endsStatement (.inr he)).symm.trans h) (by simp)
  | a :: b :: u => exact ⟨a, b, u, rfl⟩

/-- A type stays within the statement, although its parser looks at two tokens: the second is looked
at only to tell the types of two words, and none of them begins with the end of a statement. -/
theorem baseType_local : Local baseType := by
  refine lookahead_local (fun w e he => ?_) fun a b b' ha => ?_
  · cases hwords : twoWordType? (w.headD e).kind (w.tail.headD e).kind with
    | some name =>
      -- both words are tokens of the statement and are taken
      obtain ⟨a, b, u, rfl⟩ := exists_cons_cons_of_twoWordType? he hwords
      have hmodifiers : Local (do typeModifiers; return name) :=
        typeModifiers_local.bind fun _ => pure_local
      obtain ⟨r, v, hv, hrun⟩ := hmodifiers u e he trivial
      exact ⟨r, v, (hv.trans (List.suffix_cons b u)).trans (List.suffix_cons a _), hrun⟩
    | none =>
      -- otherwise the first token decides
      refine LocalOn.at he ?_
      generalize w.headD e = t
      dsimp only
      split
      · rename_i name htime
        exact (take_local (endsStatement_of_timeType? htime)).bind fun _ => zone_local
      · split
        · refine (qualifiedName_local.bind fun _ => ?_).on
          exact typeModifiers_local.bind fun _ => pure_local
        · exact unexpected_local.on
  · rw [twoWordType?_of_endsStatement (.inl ha), twoWordType?_of_endsStatement (.inl ha)]

theorem type_local : Local type :=
  baseType_local.bind fun _ => (many_local arrayBounds_local.on).bind fun _ => pure_local

/-! ### Values -/

/-- What stands after a sign does not end a statement. -/
theorem endsStatement_of_isOperand {k : Kind} (h : isOperand k = true) :
    k.endsStatement = false := by
  cases k <;> first | rfl | cases h

theorem endsStatement_of_isValue {k : Kind} (h : isValue k = true) : k.endsStatement = false := by
  cases k <;> first | rfl | cases h

/-- A value stays within the statement, a sign before it included. -/
theorem operand_local : Local operand := by
  refine current_bind_local fun t _ => ?_
  split
  · rename_i hsign
    have hkind : t.kind = .plus ∨ t.kind = .minus := by simpa using hsign
    refine (take_local ?_).bind fun _ => current_bind_local fun u _ => ?_
    · rcases hkind with h | h <;> rw [h] <;> rfl
    · split
      · rename_i hoperand
        exact (take_local (endsStatement_of_isOperand hoperand)).bind fun _ => pure_local
      · exact unexpected_local.on
  · split
    · rename_i hvalue
      exact (take_local (endsStatement_of_isValue hvalue)).bind fun _ => pure_local
    · exact unexpected_local.on

theorem expression_local : Local expression := by
  refine operand_local.bind fun _ => (accept_local rfl).bind fun b => ?_
  cases b
  · exact pure_local
  · exact type_local.bind fun _ => pure_local

theorem markedDefault_local : Local markedDefault := by
  refine (accept_local rfl).bind fun b => ?_
  cases b
  · refine (accept_local rfl).bind fun b => ?_
    cases b
    · exact unexpected_local
    · exact expression_local
  · exact expression_local

/-- A default stays within the statement, in a comment or not. -/
theorem defaultClause_local : Local defaultClause := by
  refine current_bind_local fun t _ => ?_
  split
  · rename_i hopen
    refine (take_local ?_).bind fun _ => markedDefault_local.before rfl
    rw [hopen]
    rfl
  · exact markedDefault_local.on
  · exact markedDefault_local.on
  · exact pure_local.on

/-! ### Arguments -/

theorem endsStatement_of_argumentMode? {k : Kind} {mode : ArgumentMode}
    (h : argumentMode? k = some mode) : k.endsStatement = false := by
  unfold argumentMode? at h
  split at h
  · rfl
  · rfl
  · rfl
  · rfl
  · cases h

/-- A mode is told from a name by the token after it, which has a say only after the word of a
mode. -/
theorem argumentMode_local : Local argumentMode := by
  refine lookahead_local (fun w e he => LocalOn.at he ?_) fun a b b' ha => ?_
  · split
    · rename_i mode hmode
      split
      · exact (take_local (endsStatement_of_argumentMode? hmode)).bind fun _ => pure_local
      · exact pure_local.on
    · exact pure_local.on
  · cases hmode : argumentMode? a.kind with
    | none => rfl
    | some mode =>
      rw [endsStatement_of_argumentMode? hmode] at ha
      cases ha

/-- A name is told from a type by the token after it, which has a say only after a name. -/
theorem argumentName_local : Local argumentName := by
  refine lookahead_local (fun w e he => LocalOn.at he ?_) fun a b b' ha => ?_
  · split
    · exact identifier_local.on
    · exact pure_local.on
  -- if the first token ends the statement, then the second has no say
  · have hname : a.kind.isName = false := by
      cases h : a.kind.isName with
      | false => rfl
      | true =>
        rw [Kind.endsStatement_of_isName h] at ha
        cases ha
    simp only [hname, Bool.false_and]

theorem argument_local {modes : Bool} : Local (argument modes) := by
  have hrest : ∀ mode, Local (do
      let name ← argumentName
      let type ← type
      let default ← defaultClause
      return { mode, name, type, default } : Parser Argument) := by
    intro mode
    refine argumentName_local.bind fun _ => type_local.bind fun _ => ?_
    exact defaultClause_local.bind fun _ => pure_local
  cases modes with
  | false => exact hrest _
  | true => exact argumentMode_local.bind hrest

theorem arguments_local {modes : Bool} : Local (arguments modes) :=
  commaSeparated_local (argument_local.catchUp (dropKind_local rfl))

/-! ### Functions -/

/-- The clause is told from an option by its second token, which has a say only after `RETURNS`. -/
theorem returnClause_local : Local returnClause := by
  refine lookahead_local (fun w e he => LocalOn.at he ?_) fun a b b' ha => ?_
  · split
    · rename_i hreturns
      simp only [Bool.and_eq_true, decide_eq_true_eq] at hreturns
      refine (take_local (by rw [hreturns.1]; rfl)).bind fun _ => ?_
      exact (accept_local rfl).bind fun _ => type_local.bind fun _ => pure_local
    · exact pure_local.on
  · have hreturns : a.kind ≠ .keyword .returns := by
      intro h
      rw [h] at ha
      cases ha
    simp only [hreturns, decide_false, Bool.false_and]

/-- One of two tokens is taken within the statement. -/
theorem either_local {k k' : Kind} {expected : Expectation} (hk : k.endsStatement = false)
    (hk' : k'.endsStatement = false) :
    Local (do
      unless ← accept k do
        unless ← accept k' do
          unexpected expected : Parser Unit) := by
  refine (accept_local hk).bind fun b => ?_
  cases b
  · refine (accept_local hk').bind fun b => ?_
    cases b
    · exact unexpected_local
    · exact pure_local
  · exact pure_local

/-- An option of a function stays within the statement if it begins with a word of an option. -/
theorem functionOption_local : LocalOn (fun t => startsOption t.kind = true) functionOption := by
  refine current_bind_local fun t ht => ?_
  -- the first word is taken unseen
  have hend : t.kind.endsStatement = false := by
    cases hk : t.kind <;> first | rfl | (rw [hk] at ht; cases ht)
  refine (take_local hend).bind fun _ => ?_
  split
  · refine (accept_local rfl).bind fun b => ?_
    cases b
    · exact identifier_local.discard
    · exact pure_local
  · exact expect_local rfl
  · exact expectAll_local (by decide)
  · exact expectAll_local (by decide)
  · exact (expect_local rfl).bind fun _ => either_local rfl rfl
  · exact either_local rfl rfl
  · exact either_local rfl rfl
  · exact either_local rfl rfl
  · refine ((expect_local rfl).catchUp dropCommaString_local).bind fun _ => ?_
    refine (accept_local rfl).bind fun b => ?_
    cases b
    · exact pure_local
    · exact expect_local rfl
  · exact pure_local

/-- A function without arguments is told by the parenthesis that closes them. -/
theorem functionArguments_local : Local functionArguments := by
  refine current_bind_local fun t _ => ?_
  split
  · exact pure_local.on
  · exact arguments_local.on

theorem function_local : Local function := by
  have hsignature : Local functionSignature :=
    (qualifiedName_local.before rfl).bind fun _ => functionArguments_local.bind fun _ => pure_local
  refine (expect_local rfl).bind fun _ => (hsignature.before rfl).bind fun _ => ?_
  refine returnClause_local.bind fun _ => ?_
  exact (many_local functionOption_local).discard.bind fun _ => pure_local

/-! ### Aggregates -/

/-- The word of an option that is a function does not end a statement. -/
theorem endsStatement_of_functionOptionKind? {k : Kind} {kind : OptionKind}
    (h : functionOptionKind? k = some kind) : k.endsStatement = false := by
  unfold functionOptionKind? at h
  split at h
  · rfl
  · rfl
  · rfl
  · rfl
  · cases h

/-- An option of an aggregate stays within the statement. -/
theorem aggregateOption_local : Local aggregateOption := by
  refine current_bind_local fun t _ => ?_
  split
  · rename_i kind hkind
    refine (take_local (endsStatement_of_functionOptionKind? hkind)).bind fun _ => ?_
    refine ((expect_local rfl).catchUp dropName_local).bind fun _ => ?_
    exact qualifiedName_local.bind fun _ => pure_local
  · split
    · rename_i hstype
      refine (take_local (by rw [hstype]; rfl)).bind fun _ => ?_
      exact (expect_local rfl).bind fun _ => type_local.bind fun _ => pure_local
    · rename_i hinitcond
      refine (take_local (by rw [hinitcond]; rfl)).bind fun _ => ?_
      exact (expect_local rfl).bind fun _ => expression_local.bind fun _ => pure_local
    · exact fail_local.on
    · exact fail_local.on

/-- An aggregate stays within the statement, wherever it fails. -/
theorem aggregate_local : Local aggregate := by
  have hname : Local aggregateName :=
    (accept_local rfl).discard.bind fun _ =>
      ((expect_local rfl).catchUp dropName_local).bind fun _ => qualifiedName_local
  have hargs : Local aggregateArguments := by
    refine (accept_local rfl).bind fun b => ?_
    cases b
    · exact arguments_local.bind fun _ => pure_local
    · exact pure_local
  -- after an error in the name, the parenthesis and the star behind it are caught up with
  have hsignature : Local aggregateSignature :=
    ((hname.before rfl).catchUp (dropKind_local rfl)).bind fun _ => hargs.bind fun _ => pure_local
  have hbody : Local aggregateBody :=
    ((hsignature.before rfl).before rfl).bind fun _ =>
      (commaSeparated_local aggregateOption_local).bind fun _ => pure_local
  exact hbody.before rfl

/-! ### Statements -/

/-- A declaration stays within the statement. -/
theorem declaration_local : Local declaration := by
  refine current_bind_local fun t _ => ?_
  split
  · exact (function_local.bind fun _ => pure_local).on
  · exact (aggregate_local.bind fun _ => pure_local).on
  · exact (aggregate_local.bind fun _ => pure_local).on
  · exact unexpected_local.on

/-- On the tokens `w` before the end `e` of their statement, `p` takes the semicolon that this end
is and gives a value, or it fails within the statement. -/
def ClosesAt (p : Parser α) (w : List Token) (e : Token) : Prop :=
  (∃ err v, v <:+ w ∧
    ∀ tail : Tokens, tail.current = e → p (tail.prepend w) = .error err (tail.prepend v)) ∨
  (e.kind = .semicolon ∧ ∃ a, ∀ tail : Tokens, tail.current = e →
    p (tail.prepend w) = .ok a tail.advance)

/-- Wherever it starts, `p` takes the semicolon at the end of its statement or fails before it. -/
def Closes (p : Parser α) : Prop :=
  ∀ (w : List Token) (e : Token), e.kind.endsStatement = true →
    (∀ t ∈ w, t.kind.endsStatement = false) → ClosesAt p w e

/-- What stays within the statement may come before what closes it. -/
theorem Local.closes_bind {p : Parser α} {f : α → Parser β} (hp : Local p)
    (hf : ∀ a, Closes (f a)) : Closes (p >>= f) := by
  intro w e he hw
  obtain ⟨r, v, hv, hrun⟩ := hp w e he trivial
  cases r with
  | error err =>
    refine .inl ⟨err, v, hv, fun tail htail => ?_⟩
    exact bind_of_eq_error (hrun tail htail)
  | ok a =>
    have hv' : ∀ t ∈ v, t.kind.endsStatement = false := fun t ht => hw t (hv.subset ht)
    rcases hf a v e he hv' with ⟨err, u, hu, hrun'⟩ | ⟨hsemi, b, hrun'⟩
    · refine .inl ⟨err, u, hu.trans hv, fun tail htail => ?_⟩
      rw [bind_of_eq_ok (hrun tail htail), hrun' tail htail]
    · refine .inr ⟨hsemi, b, fun tail htail => ?_⟩
      rw [bind_of_eq_ok (hrun tail htail), hrun' tail htail]

/-- The semicolon is taken if it is the first token that is left, and it is the end of the statement
then. -/
theorem expect_semicolon_closes {a : α} :
    Closes (do expect .semicolon; return a : Parser α) := by
  intro w e he hw
  by_cases hfirst : (w.headD e).kind = .semicolon
  · cases w with
    | nil =>
      refine .inr ⟨hfirst, a, fun tail htail => ?_⟩
      rw [Tokens.prepend_nil, expect_bind_of_eq (by rw [htail]; exact hfirst)]
      rfl
    -- no token before the end of the statement is a semicolon
    | cons t w => exact absurd hfirst (Kind.endsStatement_eq_false.1 (hw t (by simp))).1
  · refine .inl ⟨⟨(w.headD e).location, .atToken (w.headD e)
      (.unexpected (w.headD e).kind (w.headD e).text (.token .semicolon))⟩, w, List.suffix_rfl,
      fun tail htail => bind_of_eq_error ?_⟩
    rw [expect_of_ne (by rwa [Tokens.current_prepend w htail]), unexpected, fail,
      Tokens.current_prepend w htail]

/-- A `CREATE` takes the semicolon of its statement or fails before it. -/
theorem create_closes : Closes create := by
  have hrest : Closes (do
      let body ← declaration
      expect .semicolon
      return body : Parser StatementBody) :=
    declaration_local.closes_bind fun _ => expect_semicolon_closes
  refine (expect_local rfl).closes_bind fun _ => (accept_local rfl).closes_bind fun b => ?_
  cases b
  · exact hrest
  · exact (expect_local rfl).closes_bind fun _ => hrest

end Parser

end SqlStubs
