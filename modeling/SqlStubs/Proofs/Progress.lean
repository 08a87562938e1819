import SqlStubs.Proofs.Lexer.Truncation
import SqlStubs.Proofs.Parser.Recovery
import SqlStubs.Proofs.Translator.Rendering

/-!
# Everything comes to an end

`translate_ends`: listing the tokens of a source, reading its statements and translating it each
come to an end after at most one round more than the source has bytes.

Each of the three is a `loop` here, as long as its rounds go on, and `loop_eq` compares a loop with
the recursion that stands for it in the library: it is enough that every round makes some size
smaller.  For the tokens this is the text that is left, since every token but the end takes a byte
of it (`Lexer.next_rest_lt_of_kind`).  For the statements it is the number of tokens that are left,
also where a statement cannot be read and no token of it was taken: the rest of it is skipped then
(`nextItem?_takes`).
-/

namespace SqlStubs

/-! ### Loops -/

/-- A loop of at most `n` rounds.  A round gives a result, and then it is the last, or a state for
the next one.  There is no result if the loop does not come to an end. -/
def loop {σ ρ : Type} (round : σ → ρ ⊕ σ) : (n : Nat) → σ → Option ρ
  | 0, _ => none
  | n + 1, s =>
    match round s with
    | .inl result => some result
    | .inr next => loop round n next

/-- A loop comes to an end if every round makes its state smaller, and it computes what no round
changes. -/
theorem loop_eq {σ ρ : Type} {round : σ → ρ ⊕ σ} (P : σ → Prop) (size : σ → Nat) (f : σ → ρ)
    (hround : ∀ s, P s → match round s with
      | .inl result => f s = result
      | .inr next => P next ∧ size next < size s ∧ f s = f next)
    {n : Nat} {s : σ} (hs : P s) (hn : size s < n) : loop round n s = some (f s) := by
  induction n generalizing s with
  | zero => exact absurd hn (Nat.not_lt_zero _)
  | succ n ih =>
    have hround := hround s hs
    rw [loop]
    cases hs' : round s with
    | inl result =>
      rw [hs'] at hround
      rw [hround]
    | inr next =>
      rw [hs'] at hround
      obtain ⟨hnext, hsize, hf⟩ := hround
      rw [hf]
      exact ih hnext (by omega)

/-! ### Tokens -/

namespace Lexer

/-- A token but the end moves the lexer on. -/
theorem here_lt_next {l : Lexer} (h : l.next.1.kind ≠ .eof) :
    l.here.offset < l.next.2.here.offset := by
  have htext : l.next.1.text ≠ [] := fun hnil => h (next_text_eq_nil hnil)
  have hpos := List.length_pos_iff.2 htext
  have hafter := Location.after_offset l.next.1.location l.next.1.text
  have hfirst := (here_le_next l).1
  have hlater : (l.next.1.location.after l.next.1.text).offset ≤ l.next.2.here.offset := by
    show _ ≤ (if _ then overrun _ else _ : Location).offset
    split
    · exact Nat.le_succ _
    · exact Nat.le_refl _
  omega

/-- Each token takes a byte, so there are no more tokens than bytes. -/
theorem length_toEnd_le (l : Lexer) : l.toEnd.1.pending.length ≤ l.rest.length := by
  fun_induction Lexer.toEnd l with
  | case1 => exact Nat.zero_le _
  | case2 l step hne ts last heq ih =>
    rw [heq] at ih
    exact Nat.lt_of_le_of_lt ih (next_rest_lt_of_kind hne)

/-- The tokens that a lexer gives through the first that is final. -/
def throughFinal (l : Lexer) : List Token :=
  let all := l.toEnd.1.pending ++ [l.toEnd.1.eof]
  all.takeWhile (fun t => !isFinal t) ++ (all.dropWhile fun t => !isFinal t).take 1

theorem length_throughFinal_le (l : Lexer) : (throughFinal l).length ≤ l.rest.length + 1 := by
  have hpending := length_toEnd_le l
  have hall := congrArg List.length (List.takeWhile_append_dropWhile
    (p := fun t => !isFinal t) (l := l.toEnd.1.pending ++ [l.toEnd.1.eof]))
  simp only [List.length_append, List.length_singleton] at hall
  simp only [throughFinal, List.length_append, List.length_take]
  omega

theorem tokenize_eq (source : Text) : tokenize source = throughFinal (ofText source) := rfl

theorem length_tokenize_le (source : Text) : (tokenize source).length ≤ source.length + 1 := by
  rw [tokenize_eq]
  exact length_throughFinal_le (ofText source)

/-- A final token is the last that is listed, and here it is the only one. -/
theorem throughFinal_of_isFinal {l : Lexer} (h : isFinal l.next.1 = true) :
    throughFinal l = [l.next.1] := by
  have hall : ∃ others, l.toEnd.1.pending ++ [l.toEnd.1.eof] = l.next.1 :: others := by
    rw [Lexer.toEnd]
    by_cases heof : l.next.1.kind = .eof
    · have hrest := skip_rest_eq_nil heof
      refine ⟨[], ?_⟩
      simp only [if_pos heof, List.nil_append, Tokens.eof]
      simp only [next, hrest, read_nil]
      rfl
    · simp only [if_neg heof]
      exact ⟨_, rfl⟩
  obtain ⟨others, hall⟩ := hall
  simp [throughFinal, hall, h]

theorem kind_ne_eof_of_not_isFinal {t : Token} (h : isFinal t = false) : t.kind ≠ .eof := by
  intro heof
  rw [isFinal, heof] at h
  cases h

/-- A token that is not final is followed by those that are listed from there on. -/
theorem throughFinal_of_not_isFinal {l : Lexer} (h : isFinal l.next.1 = false) :
    throughFinal l = l.next.1 :: throughFinal l.next.2 := by
  have hne : l.next.1.kind ≠ .eof := kind_ne_eof_of_not_isFinal h
  have hall : l.toEnd.1.pending ++ [l.toEnd.1.eof] =
      l.next.1 :: (l.next.2.toEnd.1.pending ++ [l.next.2.toEnd.1.eof]) := by
    rw [Lexer.toEnd]
    simp only [if_neg hne]
    rfl
  simp [throughFinal, hall, h]

/-- One round of listing the tokens of a source: the next token is added, and a final one is the
last. -/
def round (state : List Token × Lexer) : List Token ⊕ List Token × Lexer :=
  let (t, after) := state.2.next
  if isFinal t then .inl (state.1 ++ [t]) else .inr (state.1 ++ [t], after)

/-- Listing the tokens ends within one round more than there are bytes. -/
theorem loop_round (source : Text) :
    loop round (source.length + 1) ([], ofText source) = some (tokenize source) := by
  rw [tokenize_eq]
  refine loop_eq (fun _ => True) (fun s : List Token × Lexer => s.2.rest.length)
    (fun s => s.1 ++ throughFinal s.2) ?_ trivial (Nat.lt_succ_self _)
  rintro ⟨ts, l⟩ -
  by_cases hfinal : isFinal l.next.1 = true
  · simp only [round, if_pos hfinal]
    rw [throughFinal_of_isFinal hfinal]
  · simp only [round, if_neg hfinal]
    rw [Bool.not_eq_true] at hfinal
    refine ⟨trivial, next_rest_lt_of_kind (kind_ne_eof_of_not_isFinal hfinal), ?_⟩
    rw [throughFinal_of_not_isFinal hfinal, List.append_assoc]
    rfl

end Lexer

/-! ### Statements -/

namespace Parser

variable {ts rest : Tokens} {item : Item}

/-- A round of reading takes at least one token: where a statement cannot be read, the rest of it is
skipped. -/
theorem nextItem?_takes (hts : ∀ t ∈ ts.pending, t.kind ≠ .eof)
    (h : nextItem? ts = some (item, rest)) : ∃ w, w ≠ [] ∧ ts = rest.prepend w := by
  obtain ⟨pending, stop⟩ := ts
  cases pending with
  | nil => cases h
  | cons t w =>
    obtain ⟨seg, tail, item', hsplit, -, hne, hread, hclosed⟩ := segments_cons_cases stop hts
    have hnext := hread.skip ⟨tail, stop⟩ (hclosed.imp_right fun hnil => by rw [hnil])
    rw [Tokens.prepend, ← hsplit, h] at hnext
    obtain ⟨-, rfl⟩ := Prod.mk.inj (Option.some.inj hnext)
    exact ⟨seg, hne, by rw [hsplit]; rfl⟩

/-- A round of reading leaves fewer tokens. -/
theorem size_lt_of_nextItem? (hts : ∀ t ∈ ts.pending, t.kind ≠ .eof)
    (h : nextItem? ts = some (item, rest)) : rest.size < ts.size := by
  obtain ⟨w, hne, heq⟩ := nextItem?_takes hts h
  have hpos := List.length_pos_iff.2 hne
  rw [heq, Tokens.size_prepend]
  omega

theorem kind_ne_eof_of_nextItem? (hts : ∀ t ∈ ts.pending, t.kind ≠ .eof)
    (h : nextItem? ts = some (item, rest)) : ∀ t ∈ rest.pending, t.kind ≠ .eof := by
  obtain ⟨w, -, rfl⟩ := nextItem?_takes hts h
  exact fun t ht => hts t (List.mem_append_right w ht)

theorem items_of_none (h : nextItem? ts = none) : items ts = [] := by
  rw [items, h]

/-- The items of a source are the next one and those of the tokens that are left. -/
theorem items_of_some (hts : ∀ t ∈ ts.pending, t.kind ≠ .eof)
    (h : nextItem? ts = some (item, rest)) : items ts = item :: items rest := by
  rw [items, h]
  simp only [if_pos (size_lt_of_nextItem? hts h)]

theorem length_items_le (ts : Tokens) : (items ts).length ≤ ts.size := by
  fun_induction items ts with
  | case1 => exact Nat.zero_le _
  | case2 ts item rest h hlt ih =>
    rw [List.length_cons]
    omega
  | case3 ts item rest h hle =>
    -- there is an item, so the tokens are not at their end
    obtain ⟨pending, stop⟩ := ts
    cases pending with
    | nil => cases h
    | cons t w => exact Nat.le_add_left 1 w.length

/-- One round of reading the statements of a source: the next item is added, and after an error the
rest of the statement is skipped. -/
def round (state : List Item × Tokens) : List Item ⊕ List Item × Tokens :=
  match next? state.2 with
  | none => .inl state.1
  | some (.statement s, rest) => .inr (state.1 ++ [.statement s], rest)
  | some (.failure e, rest) => .inr (state.1 ++ [.failure e], rest.skipStatement)

/-- A round adds the next item, whether it is a statement or an error. -/
theorem round_eq (items : List Item) (ts : Tokens) :
    round (items, ts) = match nextItem? ts with
      | none => .inl items
      | some (item, rest) => .inr (items ++ [item], rest) := by
  rw [round, nextItem?]
  cases next? ts with
  | none => rfl
  | some read =>
    obtain ⟨item, rest⟩ := read
    cases item <;> rfl

/-- Reading the statements ends, with the items of the source, as soon as there are more rounds than
tokens. -/
theorem loop_round (ts : Tokens) (hts : ∀ t ∈ ts.pending, t.kind ≠ .eof) {n : Nat}
    (hn : ts.size < n) : loop round n ([], ts) = some (items ts) := by
  refine loop_eq (fun s : List Item × Tokens => ∀ t ∈ s.2.pending, t.kind ≠ .eof)
    (fun s => s.2.size) (fun s => s.1 ++ items s.2) ?_ hts hn
  rintro ⟨front, ts⟩ hts
  rw [round_eq]
  cases h : nextItem? ts with
  | none => exact (congrArg (front ++ ·) (items_of_none h)).trans (List.append_nil front)
  | some next =>
    refine ⟨kind_ne_eof_of_nextItem? hts h, size_lt_of_nextItem? hts h, ?_⟩
    show front ++ items ts = front ++ [next.1] ++ items next.2
    rw [items_of_some hts h, List.append_assoc]
    rfl

/-! ### Calls after the end -/

/-- A call of a parser: for the next statement, or to go on behind the next semicolon. -/
inductive Call where
  | next | skip
deriving Repr, DecidableEq

/-- What calls are answered, and the tokens that they leave.  At the end there is no item. -/
def answers (ts : Tokens) : List Call → List (Option Item) × Tokens
  | [] => ([], ts)
  | .skip :: calls => answers ts.skipStatement calls
  | .next :: calls =>
    match next? ts with
    | none => (answers ts calls).map (none :: ·) id
    | some (item, rest) => (answers rest calls).map (some item :: ·) id

/-- At the end there is nothing to skip. -/
theorem skipStatement_of_eof (h : ts.current.kind = .eof) : ts.skipStatement = ts := by
  obtain ⟨pending, stop⟩ := ts
  cases pending with
  | nil => rfl
  | cons t w =>
    have ht : t.kind = .eof := h
    simp [Tokens.skipStatement, Tokens.dropKind, Tokens.current, ht]

theorem kind_current_of_none (h : next? ts = none) : ts.current.kind = .eof := by
  rw [next?] at h
  split at h
  · assumption
  · split at h <;> cases h

/-- At the end every call for a statement is answered in the same way, and nothing changes. -/
theorem answers_of_none (h : next? ts = none) (calls : List Call) :
    answers ts calls = (List.replicate (calls.count .next) none, ts) := by
  induction calls with
  | nil => rfl
  | cons call calls ih =>
    cases call with
    | next =>
      rw [answers, h]
      simp only [ih, List.count_cons_self, List.replicate_succ]
      rfl
    | skip =>
      have hskip : ts.skipStatement = ts := skipStatement_of_eof (kind_current_of_none h)
      rw [answers, hskip, ih, List.count_cons_of_ne (by decide)]

end Parser

/-! ### Translation -/

namespace Translator

/-- One round of translating a source: the next statement is applied.  After an error a lenient
translator leaves the rest of the statement out, and a strict one stops. -/
def round (canceled : Bool) (state : Translator × Tokens) :
    (Translator × Option TranslatorFailure) ⊕ Translator × Tokens :=
  let (t, ts) := state
  if canceled then .inl (t, some .canceled)
  else match Parser.next? ts with
  | none => .inl (t, none)
  | some (.failure e, rest) =>
    if t.options.lenient then .inr (t.leaveOut e, rest.skipStatement)
    else .inl (t, some (.invalid t.options.filename e))
  | some (.statement s, rest) =>
    let t := t.apply s
    if t.writer.failed then .inl (t, some .unwritable) else .inr (t, rest)

variable {t : Translator} {ts rest : Tokens} {item : Item}

theorem round_of_none (h : Parser.nextItem? ts = none) : round false (t, ts) = .inl (t, none) := by
  rw [Parser.nextItem?, Option.map_eq_none_iff] at h
  simp only [round, h]
  rfl

/-- A round does with an item what the run over all items does first. -/
theorem run_of_round (h : Parser.nextItem? ts = some (item, rest)) (items : List Item) :
    match round false (t, ts) with
    | .inl result => t.run (item :: items) = result
    | .inr next => next.2 = rest ∧ t.run (item :: items) = next.1.run items := by
  obtain ⟨⟨item', tail⟩, hnext, heq⟩ := Option.map_eq_some_iff.1 h
  obtain ⟨rfl, rfl⟩ := Prod.mk.inj heq
  cases item' with
  | failure e =>
    simp only [round, hnext, run]
    cases t.options.lenient with
    | true => exact ⟨rfl, rfl⟩
    | false => rfl
  | statement s =>
    simp only [round, hnext, run]
    cases (t.apply s).writer.failed with
    | true => rfl
    | false => exact ⟨rfl, rfl⟩

/-- A round that is not the last takes at least one token. -/
theorem round_takes {canceled : Bool} {next : Translator × Tokens}
    (hts : ∀ r ∈ ts.pending, r.kind ≠ .eof) (h : round canceled (t, ts) = .inr next) :
    ∃ w, w ≠ [] ∧ ts = next.2.prepend w := by
  cases canceled with
  | true => cases h
  | false =>
    cases hitem : Parser.nextItem? ts with
    | none =>
      rw [round_of_none hitem] at h
      cases h
    | some read =>
      have hround := run_of_round (t := t) hitem []
      rw [h] at hround
      rw [hround.1]
      exact Parser.nextItem?_takes hts hitem

/-- Translating ends in the same number of rounds, with the run over the items. -/
theorem loop_round (t : Translator) (hts : ∀ r ∈ ts.pending, r.kind ≠ .eof) {n : Nat}
    (hn : ts.size < n) : loop (round false) n (t, ts) = some (t.run (Parser.items ts)) := by
  refine loop_eq (fun s : Translator × Tokens => ∀ r ∈ s.2.pending, r.kind ≠ .eof)
    (fun s => s.2.size) (fun s => s.1.run (Parser.items s.2)) ?_ hts hn
  rintro ⟨t, ts⟩ hts
  cases h : Parser.nextItem? ts with
  | none =>
    rw [round_of_none h, Parser.items_of_none h]
    rfl
  | some read =>
    -- the round and the run over the items do the same with the next item
    have hround := run_of_round (t := t) h (Parser.items read.2)
    rw [← Parser.items_of_some hts h] at hround
    cases hs : round false (t, ts) with
    | inl result =>
      rw [hs] at hround
      exact hround
    | inr next =>
      rw [hs] at hround
      obtain ⟨hrest, hrun⟩ := hround
      simp only [hrest]
      exact ⟨Parser.kind_ne_eof_of_nextItem? hts h, Parser.size_lt_of_nextItem? hts h, hrun⟩

/-- Whatever becomes of the output, no more statements are left out than there are errors. -/
theorem skipped_run_le (t : Translator) (items : List Item) :
    (t.run items).1.skipped ≤ t.skipped + items.countP (·.isFailure) := by
  fun_induction Translator.run t items with
  | case1 t => exact Nat.le_refl _
  | case2 t e rest _ ih =>
    rw [List.countP_cons_of_pos (by rfl)]
    have hskipped : (t.leaveOut e).skipped = t.skipped + 1 := rfl
    omega
  | case3 t e rest _ => exact Nat.le_add_right _ _
  | case4 t s rest t' =>
    rw [skipped_apply]
    exact Nat.le_add_right _ _
  | case5 t s rest t' hok ih =>
    have hskipped : t'.skipped = t.skipped := skipped_apply
    rw [List.countP_cons_of_neg (by simp [Item.isFailure])]
    omega

theorem skipped_translateUnless_le (canceled : Bool) (t : Translator) (source : Text) :
    (t.translateUnless canceled source).1.skipped ≤
      t.skipped + (Parser.items (Lexer.tokens source)).countP (·.isFailure) := by
  cases canceled with
  | true => exact Nat.le_add_right _ _
  | false => exact skipped_run_le t _

theorem loop_translateUnless (canceled : Bool) (t : Translator) (source : Text) :
    loop (round canceled) (source.length + 1) (t, Lexer.tokens source) =
      some (t.translateUnless canceled source) := by
  cases canceled with
  | true => rfl
  | false =>
    exact loop_round t (Lexer.kind_ne_eof_of_mem_toEnd _)
      (Nat.lt_succ_of_le (Lexer.length_toEnd_le _))

/-- Every token but the end moves the lexer on, and every round of a translation but the last takes
a token, whether the translator is strict or lenient.  So the tokens of a source are listed, its
statements are read and it is translated in at most one round more than it has bytes; the statements
and those left out are together no more than its bytes.  At the end of a source every further call
for a statement finds the end again, and nothing changes, also if calls to skip one come between. -/
theorem translate_ends (source : Text) (canceled : Bool) (t : Translator) :
    let ts := Lexer.tokens source
    (∀ l : Lexer, l.next.1.kind ≠ .eof →
      l.here.offset < l.next.2.here.offset ∧ l.next.2.rest.length < l.rest.length) ∧
    (∀ t' ts' next, ts'.pending <:+ ts.pending → round canceled (t', ts') = .inr next →
      ∃ w, w ≠ [] ∧ (∀ r ∈ w, r.kind ≠ .eof) ∧ ts' = next.2.prepend w) ∧
    (loop Lexer.round (source.length + 1) ([], Lexer.ofText source) = some (Lexer.tokenize source) ∧
      (Lexer.tokenize source).length ≤ source.length + 1) ∧
    (loop Parser.round (source.length + 1) ([], ts) = some (Parser.items ts) ∧
      ts.size ≤ source.length) ∧
    loop (round canceled) (source.length + 1) (t, ts) = some (t.translateUnless canceled source) ∧
    (Parser.items ts).countP (fun i => !i.isFailure) +
        (t.translateUnless canceled source).1.skipped ≤ t.skipped + source.length ∧
    ∀ ts' calls, Parser.next? ts' = none →
      Parser.answers ts' calls = (List.replicate (calls.count .next) none, ts') := by
  intro ts
  have hts : ∀ r ∈ ts.pending, r.kind ≠ .eof := Lexer.kind_ne_eof_of_mem_toEnd _
  have hsize : ts.size ≤ source.length := Lexer.length_toEnd_le _
  refine ⟨fun l hne => ⟨Lexer.here_lt_next hne, Lexer.next_rest_lt_of_kind hne⟩, ?_,
    ⟨Lexer.loop_round source, Lexer.length_tokenize_le source⟩,
    ⟨Parser.loop_round ts hts (Nat.lt_succ_of_le hsize), hsize⟩,
    loop_translateUnless canceled t source, ?_, fun ts' calls h => Parser.answers_of_none h calls⟩
  · intro t' ts' next hsuffix hround
    have hts' : ∀ r ∈ ts'.pending, r.kind ≠ .eof := fun r hr => hts r (hsuffix.mem hr)
    obtain ⟨w, hne, rfl⟩ := round_takes hts' hround
    exact ⟨w, hne, fun r hr => hts' r (List.mem_append_left _ hr), rfl⟩
  · have hitems := Parser.length_items_le ts
    have hcount := List.length_eq_countP_add_countP (·.isFailure) (l := Parser.items ts)
    have hskipped : _ ≤ t.skipped + (Parser.items ts).countP (·.isFailure) :=
      skipped_translateUnless_le canceled t source
    simp only [Bool.not_eq_true, Bool.decide_eq_false] at hcount
    omega

end Translator

end SqlStubs
