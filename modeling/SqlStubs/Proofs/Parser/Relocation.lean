import SqlStubs.Proofs.Parser.Run

/-!
# Parsers do not look at places

If the places of all tokens are changed by some function, the places in what a parser gives are
changed in the same way, and nothing else (`next?_relocate`, `items_relocate`).  So no parser
decides anything by a place or puts one into a text, and every place that it gives is one that it
found: an error is at one of the tokens or at the end of the source (`location_of_failure`).

The text of a token that never ends may be changed as well, since an error tells only what it is
that never ends (`next?_revise`).

`Revises` is closed under everything that parsers are built from.  The parser after the change is
a parameter of its own, since what follows a look at a token depends on that token.
-/

namespace SqlStubs

variable {f : Location → Location} {x : Text → Text}

/-! ### Places -/

/-- The token at another place. -/
def Token.relocate (f : Location → Location) (t : Token) : Token :=
  { t with location := f t.location }

/-- The tokens and their end at other places. -/
def Tokens.relocate (f : Location → Location) (ts : Tokens) : Tokens :=
  ⟨ts.pending.map (·.relocate f), f ts.stop⟩

/-- The error at another place. -/
def SyntaxError.relocate (f : Location → Location) (e : SyntaxError) : SyntaxError :=
  { e with location := f e.location }

/-- The option at another place. -/
def AggregateOption.relocate (f : Location → Location) (o : AggregateOption) : AggregateOption :=
  { o with location := f o.location }

/-- The aggregate with its options at other places. -/
def AggregateDeclaration.relocate (f : Location → Location) (d : AggregateDeclaration) :
    AggregateDeclaration :=
  { d with options := d.options.map (·.relocate f) }

/-- What a statement is, at another place.  Only the options of an aggregate have places. -/
def StatementBody.relocate (f : Location → Location) : StatementBody → StatementBody
  | .aggregate d => .aggregate (d.relocate f)
  | body => body

/-- The item at another place. -/
def Item.relocate (f : Location → Location) : Item → Item
  | .statement s => .statement ⟨f s.location, s.body.relocate f⟩
  | .failure e => .failure (e.relocate f)

/-- Whether a token of this kind never ends. -/
def Kind.isUnclosed : Kind → Bool
  | .illegal (.unclosed _) => true
  | _ => false

/-- The token at another place.  A token that never ends stands for all the rest of the source, and
its text may be another one, too. -/
def Token.revise (f : Location → Location) (x : Text → Text) (t : Token) : Token :=
  ⟨t.kind, if t.kind.isUnclosed then x t.text else t.text, f t.location⟩

/-- The tokens and their end at other places. -/
def Tokens.revise (f : Location → Location) (x : Text → Text) (ts : Tokens) : Tokens :=
  ⟨ts.pending.map (·.revise f x), f ts.stop⟩

@[simp] theorem Token.kind_revise (t : Token) : (t.revise f x).kind = t.kind := rfl

/-- A token that has an end keeps its text. -/
theorem Token.text_revise {t : Token} (h : t.kind.isUnclosed = false) :
    (t.revise f x).text = t.text := by
  simp [revise, h]

/-- A change of places alone leaves all texts as they are. -/
theorem Token.relocate_eq_revise (t : Token) : t.relocate f = t.revise f id := by
  rw [revise, id, ite_self]
  rfl

theorem Tokens.relocate_eq_revise (ts : Tokens) : ts.relocate f = ts.revise f id := by
  rw [relocate, revise, List.map_congr_left fun t _ => Token.relocate_eq_revise t]

/-- A name has an end. -/
theorem Kind.isUnclosed_of_isName {kind : Kind} (h : kind.isName = true) :
    kind.isUnclosed = false := by
  cases kind <;> first | rfl | cases h

namespace Tokens

@[simp] theorem current_revise (ts : Tokens) :
    (ts.revise f x).current = ts.current.revise f x := by
  obtain ⟨_ | ⟨t, pending⟩, stop⟩ := ts <;> rfl

@[simp] theorem peek_revise (ts : Tokens) : (ts.revise f x).peek = ts.peek.revise f x := by
  obtain ⟨_ | ⟨t, _ | ⟨u, pending⟩⟩, stop⟩ := ts <;> rfl

@[simp] theorem advance_revise (ts : Tokens) :
    (ts.revise f x).advance = ts.advance.revise f x := by
  obtain ⟨_ | ⟨t, pending⟩, stop⟩ := ts <;> rfl

@[simp] theorem size_revise (ts : Tokens) : (ts.revise f x).size = ts.size := by
  simp [revise, size]

/-- What is dropped after an error is chosen by kinds, which are not changed. -/
theorem dropKind_revise (kind : Kind) (ts : Tokens) :
    (ts.revise f x).dropKind kind = (ts.dropKind kind).revise f x := by
  rw [dropKind, current_revise, advance_revise, dropKind]
  exact (apply_ite (revise f x) _ _ _).symm

theorem dropName_revise (ts : Tokens) :
    (ts.revise f x).dropName = ts.dropName.revise f x := by
  rw [dropName, current_revise, advance_revise, dropName]
  exact (apply_ite (revise f x) _ _ _).symm

theorem dropZoneMark_revise (ts : Tokens) :
    (ts.revise f x).dropZoneMark = ts.dropZoneMark.revise f x := by
  have hkind : (ts.current.revise f x).kind = ts.current.kind := rfl
  rw [dropZoneMark, current_revise, advance_revise, dropZoneMark, hkind]
  split <;> rfl

theorem dropCommaString_revise (ts : Tokens) :
    (ts.revise f x).dropCommaString = ts.dropCommaString.revise f x := by
  rw [dropCommaString, current_revise, advance_revise, dropKind_revise, dropCommaString]
  exact (apply_ite (revise f x) _ _ _).symm

end Tokens

namespace Parser

variable {α β : Type} {g : α → α} {h : β → β} {p p' : Parser α}

/-- The result at other places, where `g` changes those in the value. -/
def reviseResult (f : Location → Location) (x : Text → Text) (g : α → α) :
    EStateM.Result SyntaxError Tokens α → EStateM.Result SyntaxError Tokens α
  | .ok a rest => .ok (g a) (rest.revise f x)
  | .error e rest => .error (e.relocate f) (rest.revise f x)

/-- On tokens at other places, `p'` gives what `p` gives, at other places. -/
def Revises (f : Location → Location) (x : Text → Text) (g : α → α) (p p' : Parser α) : Prop :=
  ∀ ts, p' (ts.revise f x) = reviseResult f x g (p ts)

/-! ### Ways to build parsers -/

/-- A value changed by `g` is what the changed parser gives. -/
theorem pure_revises {a : α} : Revises f x g (pure a) (pure (g a)) := fun _ => rfl

/-- The step after a result sees that result changed, so the second parser is compared at `g a`. -/
theorem Revises.bind {k k' : α → Parser β} (hp : Revises f x g p p')
    (hk : ∀ a, Revises f x h (k a) (k' (g a))) : Revises f x h (p >>= k) (p' >>= k') := by
  intro ts
  have hrun := hp ts
  -- either both parsers go on with the changed value, or both stop with the changed error
  cases hresult : p ts with
  | ok a rest =>
    rw [hresult] at hrun
    rw [bind_of_eq_ok hrun, bind_of_eq_ok hresult]
    exact hk a rest
  | error e rest =>
    rw [hresult] at hrun
    rw [bind_of_eq_error hrun, bind_of_eq_error hresult]
    rfl

/-- A look at the first token gives the changed token. -/
theorem current_revises : Revises f x (·.revise f x) current current := fun ts =>
  congrArg (EStateM.Result.ok · _) (Tokens.current_revise ts)

theorem peek_revises : Revises f x (·.revise f x) peek peek := fun ts =>
  congrArg (EStateM.Result.ok · _) (Tokens.peek_revise ts)

theorem next_revises : Revises f x id next next := fun ts =>
  congrArg (EStateM.Result.ok ()) (Tokens.advance_revise ts)

/-- The cause of an error at a token does not change if its text is used only where the token has an
end. -/
theorem atToken_revise {t : Token} {otherwise otherwise' : SyntaxCause}
    (h : t.kind.isUnclosed = false → otherwise' = otherwise) :
    SyntaxCause.atToken (t.revise f x) otherwise' = SyntaxCause.atToken t otherwise := by
  unfold SyntaxCause.atToken
  rw [Token.kind_revise]
  split
  · rename_i hbyte
    rw [Token.text_revise (by rw [hbyte]; rfl)]
  · rfl
  · rename_i hbyte hunclosed
    refine h ?_
    unfold Kind.isUnclosed
    split
    · rename_i what hwhat
      exact absurd hwhat (hunclosed what)
    · rfl

/-- An error tells of a token what it is and not where it is, and of one that never ends only
that. -/
theorem fail_revises {cause : Token → SyntaxCause}
    (hcause : ∀ t : Token, t.kind.isUnclosed = false → cause (t.revise f x) = cause t) :
    Revises f x g (fail cause) (fail cause) := by
  intro ts
  rw [fail, Tokens.current_revise, atToken_revise (hcause ts.current)]
  rfl

/-- The error for a token that was not looked for tells the kind and the text of that token. -/
theorem unexpected_revises {expected : Expectation} :
    Revises f x g (unexpected expected) (unexpected expected) :=
  fail_revises fun _ ht => by rw [Token.kind_revise, Token.text_revise ht]

/-- Whether a token is accepted is decided by its kind. -/
theorem accept_revises {kind : Kind} : Revises f x id (accept kind) (accept kind) := by
  intro ts
  rw [accept, Tokens.current_revise, Tokens.advance_revise, accept]
  show (if ts.current.kind = kind then _ else _) = _
  split <;> rfl

theorem Revises.unlessAccept {kind : Kind} {q q' : Parser Unit} (hq : Revises f x id q q') :
    Revises f x id (do unless ← accept kind do q) (do unless ← accept kind do q') := by
  refine accept_revises.bind fun b => ?_
  cases b
  · exact hq
  · exact pure_revises

theorem expect_revises {kind : Kind} : Revises f x id (expect kind) (expect kind) :=
  unexpected_revises.unlessAccept

theorem Revises.thenExpect {kind : Kind} (hp : Revises f x g p p') :
    Revises f x g (do let a ← p; expect kind; return a) (do let a ← p'; expect kind; return a) :=
  hp.bind fun _ => expect_revises.bind fun _ => pure_revises

theorem expectAll_revises {kinds : List Kind} :
    Revises f x id (expectAll kinds) (expectAll kinds) := by
  induction kinds with
  | nil => exact pure_revises
  | cons kind kinds ih => exact expect_revises.bind fun _ => ih

theorem Revises.discard (hp : Revises f x g p p') :
    Revises f x id (Functor.discard p : Parser PUnit) (Functor.discard p') := by
  intro ts
  show EStateM.map _ p' _ = reviseResult f x id (EStateM.map _ p ts)
  unfold EStateM.map
  rw [hp ts]
  cases p ts <;> rfl

/-- A parser that catches up after an error drops the same tokens. -/
theorem Revises.catchUp {d : Tokens → Tokens} (hp : Revises f x g p p')
    (hd : ∀ ts, d (ts.revise f x) = (d ts).revise f x) :
    Revises f x g (p.catchUp d) (p'.catchUp d) := by
  intro ts
  unfold Parser.catchUp
  rw [hp ts]
  cases p ts with
  | ok a rest => rfl
  | error e rest => exact congrArg (EStateM.Result.error (e.relocate f)) (hd rest)

theorem Revises.before {kind : Kind} (hp : Revises f x g p p') :
    Revises f x g (p.before kind) (p'.before kind) :=
  (hp.catchUp (Tokens.dropKind_revise kind)).thenExpect

/-- A repetition takes as many items as before, each of them changed. -/
theorem Revises.many {starts : Kind → Bool} (hp : Revises f x g p p') :
    Revises f x (List.map g) (many starts p) (many starts p') := by
  intro ts
  -- the induction is on the number of tokens, since an item may take any number of them
  induction hn : ts.size using Nat.strongRecOn generalizing ts with
  | _ n ih =>
    subst hn
    have hstarts : starts (ts.revise f x).current.kind = starts ts.current.kind := by
      rw [Tokens.current_revise]
      rfl
    rw [Parser.many, hstarts, hp ts, Parser.many]
    split
    · cases p ts with
      | error e rest => rfl
      | ok a rest =>
        -- the sizes are the same, so both repetitions stop where an item takes nothing
        simp only [reviseResult, Tokens.size_revise]
        split
        · rename_i hlt
          rw [ih rest.size hlt rest rfl]
          cases Parser.many starts p rest <;> rfl
        · rfl
    · rfl

theorem Revises.commaSeparated (hp : Revises f x g p p') :
    Revises f x (List.map g) (Parser.commaSeparated p) (Parser.commaSeparated p') := by
  have hitem : Revises f x g (do next; p) (do next; p') := next_revises.bind fun _ => hp
  exact hp.bind fun _ => hitem.many.bind fun _ => pure_revises

/-- A repetition of items that have no places. -/
theorem Revises.many_id {starts : Kind → Bool} (hp : Revises f x id p p') :
    Revises f x id (Parser.many starts p) (Parser.many starts p') := by
  have hmany : Revises f x (List.map id) (Parser.many starts p) (Parser.many starts p') := hp.many
  rwa [List.map_id_fun] at hmany

/-- A list of items that have no places. -/
theorem Revises.commaSeparated_id (hp : Revises f x id p p') :
    Revises f x id (Parser.commaSeparated p) (Parser.commaSeparated p') := by
  have hlist := hp.commaSeparated
  rwa [List.map_id_fun] at hlist

/-! ### Names and types -/

/-- A name is taken from the text of a token that has an end. -/
theorem identifier_revises {expected : Expectation} :
    Revises f x id (identifier expected) (identifier expected) := by
  refine current_revises.bind fun t => ?_
  rw [Token.kind_revise]
  split
  · rename_i hname
    rw [Token.text_revise (Kind.isUnclosed_of_isName hname)]
    exact next_revises.bind fun _ => pure_revises
  · exact unexpected_revises

theorem qualifiedName_revises {expected : Expectation} :
    Revises f x id (qualifiedName expected) (qualifiedName expected) := by
  have hitem : Revises f x id (do next; identifier expected) (do next; identifier expected) :=
    next_revises.bind fun _ => identifier_revises
  exact identifier_revises.bind fun _ => hitem.many_id.bind fun _ => pure_revises

theorem typeModifiers_revises : Revises f x id typeModifiers typeModifiers := by
  refine accept_revises.bind fun b => ?_
  cases b
  · exact pure_revises
  · have hbound : Revises f x id ((expect .integer).catchUp (Tokens.dropKind .comma)) _ :=
      expect_revises.catchUp (Tokens.dropKind_revise .comma)
    exact hbound.commaSeparated.before.discard

theorem zone_revises {base : Text} : Revises f x id (zone base) (zone base) := by
  refine (typeModifiers_revises.catchUp Tokens.dropZoneMark_revise).bind fun _ => ?_
  refine accept_revises.bind fun b => ?_
  cases b
  · refine accept_revises.bind fun b => ?_
    cases b
    · exact pure_revises
    · exact expectAll_revises.bind fun _ => pure_revises
  · exact expectAll_revises.bind fun _ => pure_revises

theorem arrayBounds_revises : Revises f x id arrayBounds arrayBounds := by
  refine expect_revises.bind fun _ => current_revises.bind fun t => ?_
  rw [Token.kind_revise]
  split
  · rename_i hinteger
    rw [Token.text_revise (by rw [hinteger]; rfl)]
    exact next_revises.bind fun _ => expect_revises.bind fun _ => pure_revises
  · exact expect_revises.bind fun _ => pure_revises

/-- The words of a type are told by their kinds. -/
theorem baseType_revises : Revises f x id baseType baseType := by
  refine current_revises.bind fun first => peek_revises.bind fun second => ?_
  rw [Token.kind_revise, Token.kind_revise]
  split
  · refine next_revises.bind fun _ => next_revises.bind fun _ => ?_
    exact typeModifiers_revises.bind fun _ => pure_revises
  · split
    · exact next_revises.bind fun _ => zone_revises
    · split
      · refine qualifiedName_revises.bind fun _ => ?_
        exact typeModifiers_revises.bind fun _ => pure_revises
      · exact unexpected_revises

theorem type_revises : Revises f x id type type :=
  baseType_revises.bind fun _ => (arrayBounds_revises.many_id).bind fun _ => pure_revises

/-! ### Values -/

/-- What stands after a sign has an end. -/
theorem isUnclosed_of_isOperand {kind : Kind} (h : isOperand kind = true) :
    kind.isUnclosed = false := by
  cases kind <;> first | rfl | cases h

theorem isUnclosed_of_isValue {kind : Kind} (h : isValue kind = true) :
    kind.isUnclosed = false := by
  cases kind <;> first | rfl | cases h

theorem operand_revises : Revises f x id operand operand := by
  refine current_revises.bind fun t => ?_
  rw [Token.kind_revise]
  split
  · rename_i hsign
    -- both the sign and what stands after it are part of the value, and both have an end
    have ht : t.kind.isUnclosed = false := by
      rw [Bool.or_eq_true, decide_eq_true_iff, decide_eq_true_iff] at hsign
      rcases hsign with h | h <;> rw [h] <;> rfl
    refine next_revises.bind fun _ => current_revises.bind fun u => ?_
    rw [Token.kind_revise]
    split
    · rename_i hoperand
      rw [Token.text_revise ht, Token.text_revise (isUnclosed_of_isOperand hoperand)]
      exact next_revises.bind fun _ => pure_revises
    · exact unexpected_revises
  · split
    · rename_i hvalue
      rw [Token.text_revise (isUnclosed_of_isValue hvalue)]
      exact next_revises.bind fun _ => pure_revises
    · exact unexpected_revises

theorem expression_revises : Revises f x id expression expression := by
  refine operand_revises.bind fun _ => accept_revises.bind fun b => ?_
  cases b
  · exact pure_revises
  · exact type_revises.bind fun _ => pure_revises

theorem markedDefault_revises : Revises f x id markedDefault markedDefault := by
  refine accept_revises.bind fun b => ?_
  cases b
  · refine accept_revises.bind fun b => ?_
    cases b
    · exact unexpected_revises
    · exact expression_revises
  · exact expression_revises

theorem defaultClause_revises : Revises f x id defaultClause defaultClause := by
  refine current_revises.bind fun t => ?_
  rw [Token.kind_revise]
  split
  · exact next_revises.bind fun _ => markedDefault_revises.before
  · exact markedDefault_revises
  · exact markedDefault_revises
  · exact pure_revises

/-! ### Arguments -/

theorem argumentMode_revises : Revises f x id argumentMode argumentMode := by
  refine current_revises.bind fun first => peek_revises.bind fun second => ?_
  rw [Token.kind_revise, Token.kind_revise]
  split
  · split
    · exact next_revises.bind fun _ => pure_revises
    · exact pure_revises
  · exact pure_revises

theorem argumentName_revises : Revises f x id argumentName argumentName := by
  refine current_revises.bind fun first => peek_revises.bind fun second => ?_
  rw [Token.kind_revise, Token.kind_revise]
  split
  · exact identifier_revises
  · exact pure_revises

theorem argument_revises {modes : Bool} : Revises f x id (argument modes) (argument modes) := by
  cases modes with
  | false =>
    refine argumentName_revises.bind fun _ => type_revises.bind fun _ => ?_
    exact defaultClause_revises.bind fun _ => pure_revises
  | true =>
    refine argumentMode_revises.bind fun _ => argumentName_revises.bind fun _ => ?_
    exact type_revises.bind fun _ => defaultClause_revises.bind fun _ => pure_revises

theorem arguments_revises {modes : Bool} : Revises f x id (arguments modes) (arguments modes) :=
  (argument_revises.catchUp (Tokens.dropKind_revise .comma)).commaSeparated_id

/-! ### Functions -/

theorem returnClause_revises : Revises f x id returnClause returnClause := by
  refine current_revises.bind fun first => peek_revises.bind fun second => ?_
  rw [Token.kind_revise, Token.kind_revise]
  split
  · refine next_revises.bind fun _ => accept_revises.bind fun _ => ?_
    exact type_revises.bind fun _ => pure_revises
  · exact pure_revises

theorem securityKind_revises : Revises f x id securityKind securityKind :=
  unexpected_revises.unlessAccept.unlessAccept

theorem functionOption_revises : Revises f x id functionOption functionOption := by
  refine current_revises.bind fun t => next_revises.bind fun _ => ?_
  rw [Token.kind_revise]
  split
  · exact identifier_revises.discard.unlessAccept
  · exact expect_revises
  · exact expectAll_revises
  · exact expectAll_revises
  · exact expect_revises.bind fun _ => securityKind_revises
  · exact securityKind_revises
  · exact unexpected_revises.unlessAccept.unlessAccept
  · exact unexpected_revises.unlessAccept.unlessAccept
  · refine (expect_revises.catchUp Tokens.dropCommaString_revise).bind fun _ => ?_
    refine accept_revises.bind fun b => ?_
    cases b
    · exact pure_revises
    · exact expect_revises
  · exact pure_revises

theorem functionArguments_revises : Revises f x id functionArguments functionArguments := by
  refine current_revises.bind fun t => ?_
  rw [Token.kind_revise]
  split
  · exact pure_revises
  · exact arguments_revises

theorem function_revises : Revises f x id function function := by
  have hsignature : Revises f x id functionSignature functionSignature :=
    qualifiedName_revises.before.bind fun _ =>
      functionArguments_revises.bind fun _ => pure_revises
  refine expect_revises.bind fun _ => hsignature.before.bind fun _ => ?_
  refine returnClause_revises.bind fun _ => ?_
  exact functionOption_revises.many_id.discard.bind fun _ => pure_revises

/-! ### Aggregates -/

/-- An option of an aggregate keeps the place of its first token, which is changed with it. -/
theorem aggregateOption_revises :
    Revises f x (·.relocate f) aggregateOption aggregateOption := by
  refine current_revises.bind fun t => ?_
  rw [Token.kind_revise]
  split
  · -- the function of an option
    refine next_revises.bind fun _ => ?_
    refine (expect_revises.catchUp Tokens.dropName_revise).bind fun _ => ?_
    exact qualifiedName_revises.bind fun _ => pure_revises
  · split
    · refine next_revises.bind fun _ => expect_revises.bind fun _ => ?_
      exact type_revises.bind fun _ => pure_revises
    · refine next_revises.bind fun _ => expect_revises.bind fun _ => ?_
      exact expression_revises.bind fun _ => pure_revises
    · exact fail_revises fun _ _ => rfl
    · exact fail_revises fun _ ht => by rw [Token.kind_revise, Token.text_revise ht]

/-- Of the parts of an aggregate only the options have places. -/
theorem aggregate_revises : Revises f x (·.relocate f) aggregate aggregate := by
  have hname : Revises f x id aggregateName aggregateName :=
    accept_revises.discard.bind fun _ =>
      (expect_revises.catchUp Tokens.dropName_revise).bind fun _ => qualifiedName_revises
  have hargs : Revises f x id aggregateArguments aggregateArguments := by
    refine accept_revises.bind fun b => ?_
    cases b
    · exact arguments_revises.bind fun _ => pure_revises
    · exact pure_revises
  have hsignature : Revises f x id aggregateSignature aggregateSignature :=
    (hname.before.catchUp (Tokens.dropKind_revise .star)).bind fun _ =>
      hargs.bind fun _ => pure_revises
  have hbody : Revises f x (·.relocate f) aggregateBody aggregateBody :=
    hsignature.before.before.bind fun _ =>
      aggregateOption_revises.commaSeparated.bind fun _ => pure_revises
  exact hbody.before

/-! ### Statements -/

theorem declaration_revises : Revises f x (·.relocate f) declaration declaration := by
  refine current_revises.bind fun t => ?_
  rw [Token.kind_revise]
  split
  · exact function_revises.bind fun _ => pure_revises
  · exact aggregate_revises.bind fun _ => pure_revises
  · exact aggregate_revises.bind fun _ => pure_revises
  · exact unexpected_revises

theorem create_revises : Revises f x (·.relocate f) create create := by
  refine expect_revises.bind fun _ => accept_revises.bind fun b => ?_
  cases b
  · exact declaration_revises.thenExpect
  · exact expect_revises.bind fun _ => declaration_revises.thenExpect

/-- What a statement is does not depend on where it is. -/
theorem statementBody_revises : Revises f x (·.relocate f) statementBody statementBody := by
  refine current_revises.bind fun t => ?_
  rw [Token.kind_revise]
  split
  · exact next_revises.bind fun _ => pure_revises
  · rename_i hcomment
    rw [Token.text_revise (by rw [hcomment]; rfl)]
    exact next_revises.bind fun _ => pure_revises
  · exact next_revises.bind fun _ => pure_revises
  · exact create_revises
  · exact fail_revises fun _ ht => by rw [Token.kind_revise, Token.text_revise ht]

/-- If all places and the texts of tokens that never end are changed, then the places of the next
item are changed, and nothing else. -/
theorem next?_revise (f : Location → Location) (x : Text → Text) (ts : Tokens) :
    next? (ts.revise f x) =
      (next? ts).map fun (item, rest) => (item.relocate f, rest.revise f x) := by
  rw [next?, next?, Tokens.current_revise, Token.kind_revise, statementBody_revises ts]
  split
  · rfl
  · cases statementBody ts <;> rfl

/-- If all places are changed, then the places of the next item are changed, and nothing else. -/
theorem next?_relocate (f : Location → Location) (ts : Tokens) :
    next? (ts.relocate f) =
      (next? ts).map fun (item, rest) => (item.relocate f, rest.relocate f) := by
  rw [Tokens.relocate_eq_revise, next?_revise]
  simp only [Tokens.relocate_eq_revise]

/-- The rest of a failed statement ends at the same semicolon. -/
theorem skipStatement_revise (ts : Tokens) :
    (ts.revise f x).skipStatement = ts.skipStatement.revise f x := by
  have hdrop : (ts.pending.map (·.revise f x)).dropWhile
      (fun t => t.kind ≠ .semicolon && t.kind ≠ .eof) =
      (ts.pending.dropWhile fun t => t.kind ≠ .semicolon && t.kind ≠ .eof).map (·.revise f x) :=
    List.dropWhile_map
  unfold Tokens.skipStatement
  rw [← Tokens.dropKind_revise]
  exact congrArg (fun w => Tokens.dropKind .semicolon ⟨w, f ts.stop⟩) hdrop

@[simp] theorem isFailure_relocate (item : Item) :
    (item.relocate f).isFailure = item.isFailure := by
  cases item <;> rfl

theorem nextItem?_revise (f : Location → Location) (x : Text → Text) (ts : Tokens) :
    nextItem? (ts.revise f x) =
      (nextItem? ts).map fun (item, rest) => (item.relocate f, rest.revise f x) := by
  rw [nextItem?, next?_revise, nextItem?, Option.map_map, Option.map_map]
  -- an item fails before the change exactly if it does after it, so the same tokens are skipped
  refine congrFun (congrArg Option.map (funext fun (item, rest) => ?_)) _
  simp only [Function.comp_apply, isFailure_relocate, skipStatement_revise]
  split <;> rfl

/-- The items of tokens at other places are the same items at other places. -/
theorem items_revise (f : Location → Location) (x : Text → Text) (ts : Tokens) :
    items (ts.revise f x) = (items ts).map (·.relocate f) := by
  fun_induction items ts with
  | case1 ts hnone =>
    rw [items, nextItem?_revise, hnone]
    rfl
  | case2 ts item rest hsome hlt ih =>
    rw [items, nextItem?_revise, hsome]
    simp only [Option.map_some, Tokens.size_revise, if_pos hlt, ih, List.map_cons]
  | case3 ts item rest hsome hlt =>
    rw [items, nextItem?_revise, hsome]
    simp only [Option.map_some, Tokens.size_revise, if_neg hlt, List.map_cons, List.map_nil]

/-- If all places are changed, then the items of a source are the same items at other places. -/
theorem items_relocate (f : Location → Location) (ts : Tokens) :
    items (ts.relocate f) = (items ts).map (·.relocate f) := by
  rw [Tokens.relocate_eq_revise, items_revise]

/-- An error is at one of the tokens or at the end. -/
theorem location_of_failure {ts rest : Tokens} {e : SyntaxError}
    (h : next? ts = some (.failure e, rest)) :
    e.location ∈ ts.stop :: ts.pending.map (·.location) := by
  -- a change of all other places is not felt by the tokens, so neither by the error
  let f (l : Location) : Location :=
    if l ∈ ts.stop :: ts.pending.map (·.location) then l else { l with offset := l.offset + 1 }
  have hf : ∀ l, f l = l ↔ l ∈ ts.stop :: ts.pending.map (·.location) := by
    intro l
    by_cases hl : l ∈ ts.stop :: ts.pending.map (·.location)
    · simp only [f, if_pos hl, hl]
    · simp only [f, if_neg hl, hl, iff_false]
      intro heq
      exact absurd (congrArg Location.offset heq) (Nat.succ_ne_self _)
  have hts : ts.relocate f = ts := by
    have hpending : ts.pending.map (·.relocate f) = ts.pending := by
      refine (List.map_congr_left fun t ht => ?_).trans (List.map_id _)
      rw [Token.relocate, (hf t.location).2 (List.mem_cons_of_mem _ (List.mem_map_of_mem ht))]
      rfl
    rw [Tokens.relocate, hpending, (hf ts.stop).2 (by simp)]
  have hnext := next?_relocate f ts
  rw [hts, h, Option.map_some, Option.some.injEq, Prod.mk.injEq] at hnext
  have hfixed : e = e.relocate f := Item.failure.inj hnext.1
  exact (hf e.location).1 (congrArg SyntaxError.location hfixed).symm

end Parser

end SqlStubs
