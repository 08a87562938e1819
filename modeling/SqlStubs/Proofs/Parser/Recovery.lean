import SqlStubs.Proofs.Parser.Locality

/-!
# Statements are read one by one

`items_tokens`: the tokens of a source fall into segments, and reading the source gives one item for
each of them, in order: what is read of the segment when it stands alone.  So an error in one
statement is never felt in another.  The reason is that a failed statement is left before its own
semicolon, from where the rest of it can be skipped, and that no later token was looked at.
-/

namespace SqlStubs

variable {w : List Token} {t : Token}

/-! ### Segments -/

/-- The tokens through the first semicolon, or all of them if there is none. -/
def throughSemicolon : List Token → List Token
  | [] => []
  | t :: w => if t.kind = .semicolon then [t] else t :: throughSemicolon w

/-- The tokens after the first semicolon. -/
def afterSemicolon : List Token → List Token
  | [] => []
  | t :: w => if t.kind = .semicolon then w else afterSemicolon w

/-- Whether a token of this kind is a statement of its own. -/
def Kind.standsAlone (kind : Kind) : Bool := kind = .comment || kind = .newline

/-- The two parts are all of the tokens. -/
@[simp] theorem throughSemicolon_append_afterSemicolon (w : List Token) :
    throughSemicolon w ++ afterSemicolon w = w := by
  induction w with
  | nil => rfl
  | cons t w ih =>
    unfold throughSemicolon afterSemicolon
    split
    · rfl
    · rw [List.cons_append, ih]

/-- A segment has the first token. -/
theorem exists_throughSemicolon_cons (t : Token) (w : List Token) :
    ∃ v, throughSemicolon (t :: w) = t :: v := by
  unfold throughSemicolon
  split
  · exact ⟨[], rfl⟩
  · exact ⟨_, rfl⟩

/-- What comes after a segment is shorter, so the cutting ends. -/
theorem length_afterSemicolon_lt (t : Token) (w : List Token) :
    (afterSemicolon (t :: w)).length < (t :: w).length := by
  have hwhole := congrArg List.length (throughSemicolon_append_afterSemicolon (t :: w))
  obtain ⟨v, hv⟩ := exists_throughSemicolon_cons t w
  rw [hv, List.length_append, List.length_cons] at hwhole
  omega

/-- The tokens of a source, cut so that a comment and a line break are each a segment, and any other
segment goes through its first semicolon. -/
def segments : List Token → List (List Token)
  | [] => []
  | t :: w =>
    if t.kind.standsAlone then [t] :: segments w
    else throughSemicolon (t :: w) :: segments (afterSemicolon (t :: w))
termination_by w => w.length
decreasing_by
  · exact Nat.lt_succ_self _
  · exact length_afterSemicolon_lt t w

/-- No token is lost. -/
theorem flatten_segments (w : List Token) : (segments w).flatten = w := by
  fun_induction segments w with
  | case1 => rfl
  | case2 t w _ ih => rw [List.flatten_cons, ih, List.singleton_append]
  | case3 t w _ ih => rw [List.flatten_cons, ih, throughSemicolon_append_afterSemicolon]

/-- The first semicolon is the last token of what goes through it.  If there is none, nothing is
left. -/
theorem throughSemicolon_cases (hw : ∀ t ∈ w, t.kind ≠ .eof) :
    (∃ u s, throughSemicolon w = u ++ [s] ∧ s.kind = .semicolon ∧
      ∀ t ∈ u, t.kind.endsStatement = false) ∨
    (throughSemicolon w = w ∧ afterSemicolon w = [] ∧ ∀ t ∈ w, t.kind.endsStatement = false) := by
  induction w with
  | nil => exact .inr ⟨rfl, rfl, by simp⟩
  | cons t w ih =>
    unfold throughSemicolon afterSemicolon
    rw [List.forall_mem_cons] at hw
    by_cases ht : t.kind = .semicolon
    · rw [if_pos ht]
      exact .inl ⟨[], t, rfl, ht, by simp⟩
    · have hend : t.kind.endsStatement = false := Kind.endsStatement_eq_false.2 ⟨ht, hw.1⟩
      rw [if_neg ht, if_neg ht]
      rcases ih hw.2 with ⟨u, s, hus, hs, hu⟩ | ⟨hall, hafter, hends⟩
      · refine .inl ⟨t :: u, s, by rw [hus]; rfl, hs, ?_⟩
        rw [List.forall_mem_cons]
        exact ⟨hend, hu⟩
      · refine .inr ⟨by rw [hall], hafter, ?_⟩
        rw [List.forall_mem_cons]
        exact ⟨hend, hends⟩

namespace Parser

/-! ### One segment -/

/-- Whether a segment has an end of its own: it is a comment or a line break, or has a semicolon. -/
def Closed (seg : List Token) : Prop :=
  (∃ t, seg = [t] ∧ t.kind.standsAlone = true) ∨ ∃ t ∈ seg, t.kind = .semicolon

/-- A segment is read as `item`, and then the next segment is gone on with.  After a segment with an
end of its own anything may follow, else the source ends at `stop`.  If the segment fails, then its
semicolon is left. -/
structure ReadsAs (stop : Location) (seg : List Token) (item : Item) : Prop where
  next : ∃ v, v <:+ seg ∧ (item.isFailure = true → ∀ t ∈ seg, t.kind = .semicolon → t ∈ v) ∧
    ∀ tail : Tokens, Closed seg ∨ tail = ⟨[], stop⟩ →
      next? (tail.prepend seg) = some (item, tail.prepend v)
  skip : ∀ tail : Tokens, Closed seg ∨ tail = ⟨[], stop⟩ →
    nextItem? (tail.prepend seg) = some (item, tail)

theorem next?_of_ok {ts rest : Tokens} {body : StatementBody} (hne : ts.current.kind ≠ .eof)
    (h : statementBody ts = .ok body rest) :
    next? ts = some (.statement ⟨ts.current.location, body⟩, rest) := by
  rw [next?, if_neg hne, h]

theorem next?_of_error {ts rest : Tokens} {e : SyntaxError} (hne : ts.current.kind ≠ .eof)
    (h : statementBody ts = .error e rest) : next? ts = some (.failure e, rest) := by
  rw [next?, if_neg hne, h]

/-- A segment that is read as a statement leaves nothing. -/
theorem readsAs_of_statement {stop : Location} {seg : List Token} {s : Statement}
    (h : ∀ tail : Tokens, Closed seg ∨ tail = ⟨[], stop⟩ →
      next? (tail.prepend seg) = some (.statement s, tail)) :
    ReadsAs stop seg (.statement s) where
  next := ⟨[], List.nil_suffix, nofun, h⟩
  skip tail htail := by
    rw [nextItem?, h tail htail]
    rfl

/-- A comment, a line break or a semicolon alone. -/
theorem readsAs_single {stop : Location} (ht : t.kind.standsAlone = true ∨ t.kind = .semicolon) :
    ∃ item, ReadsAs stop [t] item := by
  have hkind : t.kind = .comment ∨ t.kind = .newline ∨ t.kind = .semicolon := by
    simpa [Kind.standsAlone, or_assoc] using ht
  have hne : t.kind ≠ .eof := by
    rcases hkind with h | h | h <;> simp [h]
  -- each of the three is told by its kind and takes one token
  have hbody : ∃ body, ∀ tail : Tokens, statementBody (tail.prepend [t]) = .ok body tail := by
    rcases hkind with h | h | h
    · refine ⟨.comment t.text, fun tail => ?_⟩
      rw [statementBody, current_bind, Tokens.current_prepend_cons, h]
      rfl
    · refine ⟨.newline, fun tail => ?_⟩
      rw [statementBody, current_bind, Tokens.current_prepend_cons, h]
      rfl
    · refine ⟨.empty, fun tail => ?_⟩
      rw [statementBody, current_bind, Tokens.current_prepend_cons, h]
      rfl
  obtain ⟨body, hbody⟩ := hbody
  refine ⟨.statement ⟨t.location, body⟩, readsAs_of_statement fun tail _ => ?_⟩
  exact next?_of_ok hne (hbody tail)

/-- A statement that is more than one token takes its semicolon or fails before it. -/
theorem statementBody_closesAt {e : Token} (he : e.kind.endsStatement = true)
    (hends : ∀ s ∈ t :: w, s.kind.endsStatement = false) (ht : t.kind.standsAlone = false) :
    ClosesAt statementBody (t :: w) e := by
  by_cases hcreate : t.kind = .keyword .create
  · have hrun : ∀ tail : Tokens,
        statementBody (tail.prepend (t :: w)) = create (tail.prepend (t :: w)) := by
      intro tail
      rw [statementBody, current_bind, Tokens.current_prepend_cons, hcreate]
    simpa only [ClosesAt, hrun] using create_closes (t :: w) e he hends
  · -- the statement fails at its first token, and nothing is taken
    refine .inl ⟨⟨t.location, .atToken t (.unexpectedStart t.kind t.text)⟩, t :: w,
      List.suffix_rfl, fun tail _ => ?_⟩
    have hsemi := hends t (by simp)
    have hfail : statementBody (tail.prepend (t :: w)) =
        (fail fun t => .unexpectedStart t.kind t.text : Parser StatementBody)
          (tail.prepend (t :: w)) := by
      rw [statementBody, current_bind, Tokens.current_prepend_cons]
      generalize t.kind = kind at hcreate ht hsemi
      split
      · cases hsemi
      · cases ht
      · cases ht
      · exact absurd rfl hcreate
      · rfl
    rw [hfail]
    rfl

/-- After an error in a statement, what is left of the statement is skipped with its semicolon. -/
theorem skipStatement_closed {s : Token} {tail : Tokens} (hs : s.kind = .semicolon)
    (hends : ∀ t ∈ w, t.kind.endsStatement = false) :
    (tail.prepend (w ++ [s])).skipStatement = tail := by
  have hdrop : (w ++ s :: tail.pending).dropWhile
      (fun t => t.kind ≠ .semicolon && t.kind ≠ .eof) = s :: tail.pending := by
    rw [List.dropWhile_append_of_pos]
    · rw [List.dropWhile_cons_of_neg]
      simp [hs]
    · intro t ht
      simpa [Kind.endsStatement] using hends t ht
  unfold Tokens.skipStatement
  simp only [Tokens.pending_prepend, List.append_assoc, List.singleton_append, hdrop]
  exact if_pos hs

/-- Without a semicolon all is skipped. -/
theorem skipStatement_open {stop : Location} (hends : ∀ t ∈ w, t.kind.endsStatement = false) :
    Tokens.skipStatement ⟨w, stop⟩ = ⟨[], stop⟩ := by
  have hdrop : w.dropWhile (fun t => t.kind ≠ .semicolon && t.kind ≠ .eof) = [] := by
    have happend := @List.dropWhile_append_of_pos _
      (fun t : Token => t.kind ≠ .semicolon && t.kind ≠ .eof) w [] fun t ht => by
        simpa [Kind.endsStatement] using hends t ht
    simpa using happend
  unfold Tokens.skipStatement
  simp only [hdrop]
  rfl

/-- A segment with a semicolon, which is its last token. -/
theorem readsAs_closed {stop : Location} {s : Token} (hs : s.kind = .semicolon)
    (hends : ∀ r ∈ t :: w, r.kind.endsStatement = false) (ht : t.kind.standsAlone = false) :
    ∃ item, ReadsAs stop (t :: w ++ [s]) item := by
  have hne : t.kind ≠ .eof := (Kind.endsStatement_eq_false.1 (hends t (by simp))).2
  rcases statementBody_closesAt (e := s) (by rw [hs]; rfl) hends ht with
    ⟨err, v, hv, hrun⟩ | ⟨-, body, hrun⟩
  -- it fails with a part `v` of the statement left, and the semicolon is left behind that
  · have hnext : ∀ tail : Tokens,
        next? (tail.prepend (t :: w ++ [s])) = some (.failure err, tail.prepend (v ++ [s])) := by
      intro tail
      rw [← Tokens.prepend_prepend, ← Tokens.prepend_prepend]
      exact next?_of_error hne (hrun _ rfl)
    refine ⟨.failure err, ⟨v ++ [s], ?_, ?_, fun tail _ => hnext tail⟩, fun tail _ => ?_⟩
    · obtain ⟨u, hu⟩ := hv
      exact ⟨u, by rw [← hu, List.append_assoc]⟩
    · intro _ r hr hsemi
      rw [List.mem_append, List.mem_singleton] at hr
      rcases hr with hr | rfl
      · exact absurd hsemi (Kind.endsStatement_eq_false.1 (hends r hr)).1
      · simp
    · rw [nextItem?, hnext tail]
      show some (_, (tail.prepend (v ++ [s])).skipStatement) = _
      rw [skipStatement_closed hs fun r hr => hends r (hv.subset hr)]
  · refine ⟨.statement ⟨t.location, body⟩, readsAs_of_statement fun tail _ => ?_⟩
    rw [← Tokens.prepend_prepend]
    exact next?_of_ok hne (hrun _ rfl)

/-- A segment without an end of its own fails, and the source ends after it. -/
theorem readsAs_open {stop : Location} (hends : ∀ r ∈ t :: w, r.kind.endsStatement = false)
    (ht : t.kind.standsAlone = false) : ∃ item, ReadsAs stop (t :: w) item := by
  have hne : t.kind ≠ .eof := (Kind.endsStatement_eq_false.1 (hends t (by simp))).2
  have hopen : ¬Closed (t :: w) := by
    rintro (⟨s, hs, halone⟩ | ⟨s, hs, hsemi⟩)
    · cases hs
      rw [ht] at halone
      cases halone
    · exact absurd hsemi (Kind.endsStatement_eq_false.1 (hends s hs)).1
  -- what ends the statement is the end of the source
  let e : Token := ⟨.eof, [], stop⟩
  rcases statementBody_closesAt (e := e) rfl hends ht with ⟨err, v, hv, hrun⟩ | ⟨hsemi, -⟩
  · have hnext : next? ⟨t :: w, stop⟩ = some (.failure err, ⟨v, stop⟩) := by
      have hrun' := hrun ⟨[], stop⟩ rfl
      simp only [Tokens.prepend, List.append_nil] at hrun'
      exact next?_of_error hne hrun'
    refine ⟨.failure err, ⟨v, hv, ?_, ?_⟩, ?_⟩
    · intro _ r hr hsemi
      exact absurd (.inr ⟨r, hr, hsemi⟩) hopen
    · rintro tail (hclosed | rfl)
      · exact absurd hclosed hopen
      · simpa only [Tokens.prepend, List.append_nil] using hnext
    · rintro tail (hclosed | rfl)
      · exact absurd hclosed hopen
      · simp only [Tokens.prepend, List.append_nil]
        rw [nextItem?, hnext]
        show some (_, Tokens.skipStatement ⟨v, stop⟩) = _
        rw [skipStatement_open fun r hr => hends r (hv.subset hr)]
  · cases hsemi

/-- The first segment of some tokens is read as one item. -/
theorem readsAs_throughSemicolon {stop : Location} (hw : ∀ r ∈ t :: w, r.kind ≠ .eof)
    (ht : t.kind.standsAlone = false) :
    (∃ item, ReadsAs stop (throughSemicolon (t :: w)) item) ∧
      (Closed (throughSemicolon (t :: w)) ∨ afterSemicolon (t :: w) = []) := by
  rcases throughSemicolon_cases hw with ⟨u, s, hus, hs, hends⟩ | ⟨hall, hafter, hends⟩
  · rw [hus]
    constructor
    · cases u with
      | nil => exact readsAs_single (.inr hs)
      | cons r u =>
        obtain ⟨v, hv⟩ := exists_throughSemicolon_cons t w
        have hr : r = t := (List.cons.inj (hus.symm.trans hv)).1
        exact readsAs_closed hs hends (hr ▸ ht)
    · exact .inl (.inr ⟨s, by simp, hs⟩)
  · rw [hall]
    exact ⟨readsAs_open hends ht, .inr hafter⟩

/-! ### All segments -/

/-- The first segment is read as one item, and all tokens after it belong to later ones.  If there
are any, it has an end of its own. -/
theorem segments_cons_cases (stop : Location) (hw : ∀ r ∈ t :: w, r.kind ≠ .eof) :
    ∃ seg rest item, t :: w = seg ++ rest ∧ segments (t :: w) = seg :: segments rest ∧ seg ≠ [] ∧
      ReadsAs stop seg item ∧ (Closed seg ∨ rest = []) := by
  rw [segments]
  by_cases halone : t.kind.standsAlone = true
  · obtain ⟨item, hread⟩ := readsAs_single (.inl halone)
    rw [if_pos halone]
    exact ⟨[t], w, item, rfl, rfl, by simp, hread, .inl (.inl ⟨t, rfl, halone⟩)⟩
  · obtain ⟨⟨item, hread⟩, hclosed⟩ := readsAs_throughSemicolon hw (by simpa using halone)
    rw [if_neg halone]
    refine ⟨_, _, item, (throughSemicolon_append_afterSemicolon _).symm, rfl, ?_, hread, hclosed⟩
    obtain ⟨v, hv⟩ := exists_throughSemicolon_cons t w
    simp [hv]

/-- A segment gives one item, and the tokens after it give the others. -/
theorem items_prepend {stop : Location} {seg : List Token} {item : Item} {tail : Tokens}
    (h : ReadsAs stop seg item) (hne : seg ≠ []) (htail : Closed seg ∨ tail = ⟨[], stop⟩) :
    items (tail.prepend seg) = item :: items tail := by
  have hpos := List.length_pos_iff.2 hne
  have hsize : tail.size < (tail.prepend seg).size := by
    rw [Tokens.size_prepend]
    omega
  rw [items, h.skip tail htail]
  simp only [if_pos hsize]

/-- What is read of a segment alone, with the end of the source after it. -/
theorem ReadsAs.alone {stop stop' : Location} {seg : List Token} {item : Item}
    (h : ReadsAs stop seg item) (hstop : Closed seg ∨ stop' = stop) :
    (next? ⟨seg, stop'⟩).map (·.1) = some item := by
  obtain ⟨v, -, -, hnext⟩ := h.next
  have halone := hnext ⟨[], stop'⟩ (hstop.imp_right fun h => by rw [h])
  simp only [Tokens.prepend, List.append_nil] at halone
  rw [halone]
  rfl

/-- Tokens, their segments and the items that are read of them, one for each segment. -/
inductive Run (stop : Location) : List Token → List (List Token) → List Item → Prop
  | nil : Run stop [] [] []
  | cons {seg rest : List Token} {segs : List (List Token)} {item : Item} {items : List Item}
      (hne : seg ≠ []) (read : ReadsAs stop seg item) (closed : Closed seg ∨ rest = [])
      (others : Run stop rest segs items) : Run stop (seg ++ rest) (seg :: segs) (item :: items)

theorem run_items {stop : Location} (hw : ∀ t ∈ w, t.kind ≠ .eof) :
    Run stop w (segments w) (items ⟨w, stop⟩) := by
  -- the induction is on the number of tokens, one segment at a time
  induction hn : w.length using Nat.strongRecOn generalizing w with
  | _ n ih =>
    subst hn
    cases w with
    | nil =>
      rw [items, segments]
      exact .nil
    | cons t w =>
      obtain ⟨seg, rest, item, hsplit, hsegments, hne, hread, hclosed⟩ :=
        segments_cons_cases stop hw
      have htail : Closed seg ∨ (⟨rest, stop⟩ : Tokens) = ⟨[], stop⟩ :=
        hclosed.imp_right fun h => by rw [h]
      have hitems : items ⟨seg ++ rest, stop⟩ = item :: items ⟨rest, stop⟩ :=
        items_prepend hread hne htail
      have hlength : rest.length < (t :: w).length := by
        have := List.length_pos_iff.2 hne
        rw [hsplit, List.length_append]
        omega
      rw [hsegments, hsplit, hitems]
      rw [hsplit] at hw
      refine .cons hne hread hclosed (ih rest.length hlength (fun r hr => ?_) rfl)
      exact hw r (List.mem_append_right seg hr)

section Run

variable {stop : Location} {segs : List (List Token)} {items : List Item}

/-- In a run, each item is that of its segment alone. -/
theorem Run.map_some (h : Run stop w segs items) :
    items.map some = segs.map fun seg => (next? ⟨seg, stop⟩).map (·.1) := by
  induction h with
  | nil => rfl
  | cons _ read _ _ ih => rw [List.map_cons, List.map_cons, ih, read.alone (.inr rfl)]

/-- No tokens, no segments. -/
theorem Run.segments_eq_nil (h : Run stop w segs items) (hw : w = []) : segs = [] := by
  cases h with
  | nil => rfl
  | cons hne =>
    rw [List.append_eq_nil_iff] at hw
    exact absurd hw.1 hne

/-- Each segment is read as one item, and all but the last have an end of their own. -/
theorem Run.readsAs {before after : List (List Token)} {seg : List Token}
    (h : Run stop w segs items) (hsegs : segs = before ++ seg :: after) :
    ∃ item, ReadsAs stop seg item ∧ (Closed seg ∨ after = []) := by
  induction h generalizing before with
  | nil => simp at hsegs
  | cons _ read closed others ih =>
    cases before with
    | nil =>
      rw [List.nil_append, List.cons.injEq] at hsegs
      obtain ⟨rfl, rfl⟩ := hsegs
      exact ⟨_, read, closed.imp_right others.segments_eq_nil⟩
    | cons b before =>
      rw [List.cons_append, List.cons.injEq] at hsegs
      exact ih hsegs.2

end Run

end Parser

/-- The end of a source is not one of the tokens before it. -/
theorem Lexer.kind_ne_eof_of_mem_toEnd (l : Lexer) : ∀ t ∈ l.toEnd.1.pending, t.kind ≠ .eof := by
  fun_induction Lexer.toEnd l with
  | case1 => simp
  | case2 l step hne ts last heq ih =>
    rw [heq] at ih
    rw [List.forall_mem_cons]
    exact ⟨hne, ih⟩

namespace Parser

/-- Reading a source gives one item for each of its segments, in order, and the item is what is read
of the segment alone: with the end of the source after it, or with any end at all if the segment has
one of its own.  A segment that fails leaves its semicolon and all tokens of later segments. -/
theorem items_tokens (source : Text) :
    let ts := Lexer.tokens source
    (segments ts.pending).flatten = ts.pending ∧
    (items ts).map some = (segments ts.pending).map (fun seg => (next? ⟨seg, ts.stop⟩).map (·.1)) ∧
    ∀ before seg after, segments ts.pending = before ++ seg :: after →
      (Closed seg → ∀ stop,
        (next? ⟨seg, stop⟩).map (·.1) = (next? ⟨seg, ts.stop⟩).map (·.1)) ∧
      ∀ e rest, next? ⟨seg ++ after.flatten, ts.stop⟩ = some (.failure e, rest) →
        ∃ v, v <:+ seg ∧ (∀ t ∈ seg, t.kind = .semicolon → t ∈ v) ∧
          rest = ⟨v ++ after.flatten, ts.stop⟩ := by
  intro ts
  have hw : ∀ t ∈ ts.pending, t.kind ≠ .eof := Lexer.kind_ne_eof_of_mem_toEnd _
  have hrun : Run ts.stop ts.pending (segments ts.pending) (items ts) := run_items hw
  refine ⟨flatten_segments _, hrun.map_some, ?_⟩
  intro before seg after hsplit
  obtain ⟨item, hread, hclosed⟩ := hrun.readsAs hsplit
  constructor
  · intro hclosed stop
    rw [hread.alone (.inl hclosed), hread.alone (.inr rfl)]
  · intro e rest hfail
    -- the later segments are the tail that the segment does not feel
    obtain ⟨v, hv, hsemi, hnext⟩ := hread.next
    have hrun := hnext ⟨after.flatten, ts.stop⟩ (hclosed.imp_right fun h => by rw [h]; rfl)
    rw [Tokens.prepend, hfail, Option.some.injEq, Prod.mk.injEq] at hrun
    obtain ⟨rfl, rfl⟩ := hrun
    exact ⟨v, hv, hsemi rfl, rfl⟩

end Parser

end SqlStubs
