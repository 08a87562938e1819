import Mathlib.Data.List.Infix
import SqlStubs.Proofs.Lexer.Closing
import SqlStubs.Proofs.Lexer.Modes

/-!
# Strings

`next_string`: a text that is written as a string is read back as one token, whatever bytes it has
and whatever follows, and a string without its closing delimiter stands for all the rest.  The three
ways to write a string differ in what can stand between the delimiters.  `QuotedBody` says this for
the two that end with an apostrophe, and a dollar string ends where its delimiter occurs first.

What is between an opener and its closing delimiter is not looked at in any other way, so a string
is read in the same mode as it was opened in: nothing in it ends the statement.
-/

namespace SqlStubs.Lexer

/-! ### Ways to write a string -/

/-- A text with every byte `q` written twice. -/
def doubled (q : UInt8) (s : Text) : Text := s.flatMap fun b => if b = q then [b, b] else [b]

/-- A text with a backslash before every backslash and every apostrophe. -/
def backslashed (s : Text) : Text :=
  s.flatMap fun b => if b = 0x5C ∨ b = 0x27 then [0x5C, b] else [b]

/-- A text between apostrophes. -/
def plainString (s : Text) : Text := [0x27] ++ (doubled 0x27 s ++ [0x27])

/-- A text between apostrophes after the letter `e`. -/
def escapedString (e : UInt8) (s : Text) : Text := [e, 0x27] ++ (backslashed s ++ [0x27])

/-- The dollar delimiter with a tag. -/
def dollarMark (tag : Text) : Text := 0x24 :: (tag ++ [0x24])

/-- A text between dollar delimiters. -/
def dollarString (tag s : Text) : Text := dollarMark tag ++ (s ++ dollarMark tag)

/-- What can be the tag of a dollar delimiter: bytes of a name other than `$`, the first of them no
digit. -/
structure IsTag (tag : Text) : Prop where
  bytes : ∀ b ∈ tag, isNameByte b = true ∧ b ≠ 0x24
  first : ∀ b ∈ tag.head?, Text.isDigit b = false

/-! ### What ends a string -/

/-- What can stand between two delimiters `q`: any bytes, but `q` itself only twice in a row.  If
backslashes escape, then one of them stands before any byte, which is then no delimiter. -/
inductive QuotedBody (q : UInt8) (escapes : Bool) : Text → Prop
  | nil : QuotedBody q escapes []
  | byte {b : UInt8} {s : Text} (hq : b ≠ q) (hslash : escapes = true → b ≠ 0x5C)
      (others : QuotedBody q escapes s) : QuotedBody q escapes (b :: s)
  | twice {s : Text} (others : QuotedBody q escapes s) : QuotedBody q escapes (q :: q :: s)
  | escaped {b : UInt8} {s : Text} (h : escapes = true) (others : QuotedBody q escapes s) :
      QuotedBody q escapes (0x5C :: b :: s)

/-- The text `s` goes on with `body` and the delimiter `q` that closes it, before the text `r`. -/
structure Closes (q : UInt8) (escapes : Bool) (s body r : Text) : Prop where
  eq : s = body ++ q :: r
  body : QuotedBody q escapes body
  ends : r.head? ≠ some q

/-- The first place where `mark` stands in a text is `i`. -/
def FirstAt (mark s : Text) (i : Nat) : Prop := mark <+: s.drop i ∧ ∀ j < i, ¬mark <+: s.drop j

variable {q : UInt8} {s r body : Text} {c : Cut}

/-- With every delimiter doubled, any text can stand between two of them. -/
theorem quotedBody_doubled (q : UInt8) (s : Text) : QuotedBody q false (doubled q s) := by
  induction s with
  | nil => exact .nil
  | cons b s ih =>
    rw [doubled, List.flatMap_cons]
    split
    · rename_i hb
      subst hb
      exact .twice ih
    · rename_i hb
      exact .byte hb (by simp) ih

/-- With backslashes before the bytes that would end it, any text can stand in an `E` string. -/
theorem quotedBody_backslashed (s : Text) : QuotedBody 0x27 true (backslashed s) := by
  induction s with
  | nil => exact .nil
  | cons b s ih =>
    rw [backslashed, List.flatMap_cons]
    split
    · exact .escaped rfl ih
    · rename_i hb
      rw [not_or] at hb
      exact .byte hb.2 (fun _ => hb.1) ih

/-! ### Closing delimiters are found -/

theorem closeDoubled?_delimiter (hr : r.head? ≠ some q) :
    closeDoubled? q (q :: r) = some ⟨[q], r⟩ := by
  cases r with
  | nil => simp [closeDoubled?]
  | cons a r =>
    have ha : a ≠ q := by simpa using hr
    simp [closeDoubled?, ha]

theorem closeDoubled?_of_ne {a : UInt8} (ha : a ≠ q) (s : Text) :
    closeDoubled? q (a :: s) = (closeDoubled? q s).map (·.prepend [a]) := by
  cases s with
  | nil => simp [closeDoubled?, ha]
  | cons b s => rw [closeDoubled?, if_neg ha]

/-- The closing delimiter of a quotation is found. -/
theorem closeDoubled?_of_closes (h : Closes q false s body r) :
    closeDoubled? q s = some ⟨body ++ [q], r⟩ := by
  obtain ⟨rfl, hbody, hr⟩ := h
  -- on what stands between the delimiters, which is how the reader goes through it
  induction hbody with
  | nil => exact closeDoubled?_delimiter hr
  | byte hq _ _ ih =>
    rw [List.cons_append, closeDoubled?_of_ne hq, ih]
    rfl
  | twice _ ih =>
    rw [List.cons_append, List.cons_append, closeDoubled?, if_pos rfl, if_pos rfl, ih]
    rfl
  | escaped h => cases h

/-- What is taken for the closing delimiter of a quotation is one. -/
theorem exists_closes_of_closeDoubled? (h : closeDoubled? q s = some c) :
    ∃ body, c.taken = body ++ [q] ∧ Closes q false s body c.rest := by
  fun_induction closeDoubled? q s generalizing c with
  | case1 | case3 => cases h
  | case2 =>
    cases h
    exact ⟨[], rfl, rfl, .nil, by simp⟩
  | case4 s ih =>
    obtain ⟨d, hd, rfl⟩ := Option.map_eq_some_iff.1 h
    obtain ⟨body, htaken, heq, hbody, hends⟩ := ih hd
    exact ⟨q :: q :: body, by simp [htaken], by simp [heq], .twice hbody, hends⟩
  | case5 a s ha =>
    cases h
    exact ⟨[], rfl, rfl, .nil, by simpa using ha⟩
  | case6 a b s ha ih =>
    obtain ⟨d, hd, rfl⟩ := Option.map_eq_some_iff.1 h
    obtain ⟨body, htaken, heq, hbody, hends⟩ := ih hd
    exact ⟨a :: body, by simp [htaken], by simp [heq], .byte ha (by simp) hbody, hends⟩

/-- The closing apostrophe of an `E` string is found. -/
theorem closeEscaped?_of_closes (h : Closes 0x27 true s body r) :
    closeEscaped? s = some ⟨body ++ [0x27], r⟩ := by
  obtain ⟨rfl, hbody, hr⟩ := h
  induction hbody with
  | nil => exact closeEscaped?_apostrophe hr
  | byte hq hslash _ ih =>
    rw [List.cons_append, closeEscaped?_of_plain (hslash rfl) hq, ih]
    rfl
  | twice _ ih =>
    rw [List.cons_append, List.cons_append, closeEscaped?, ih]
    rfl
  | escaped _ _ ih =>
    rw [List.cons_append, List.cons_append, closeEscaped?, ih]
    rfl

/-- What is taken for the closing apostrophe of an `E` string is one. -/
theorem exists_closes_of_closeEscaped? (h : closeEscaped? s = some c) :
    ∃ body, c.taken = body ++ [0x27] ∧ Closes 0x27 true s body c.rest := by
  have hends := head?_rest_closeEscaped? h
  fun_induction closeEscaped? s generalizing c with
  | case1 | case2 => cases h
  | case3 b s ih =>
    obtain ⟨d, hd, rfl⟩ := Option.map_eq_some_iff.1 h
    obtain ⟨body, htaken, heq, hbody, hends⟩ := ih hd hends
    exact ⟨0x5C :: b :: body, by simp [htaken], by simp [heq], .escaped rfl hbody, hends⟩
  | case4 s ih =>
    obtain ⟨d, hd, rfl⟩ := Option.map_eq_some_iff.1 h
    obtain ⟨body, htaken, heq, hbody, hends⟩ := ih hd hends
    exact ⟨0x27 :: 0x27 :: body, by simp [htaken], by simp [heq], .twice hbody, hends⟩
  | case5 s _ =>
    cases h
    exact ⟨[], rfl, rfl, .nil, hends⟩
  | case6 a s hlast hslash hdouble hquote ih =>
    -- backslashes have been dealt with, in front of another byte and at the end
    have ha : a ≠ 0x5C := ne_backslash hlast hslash
    obtain ⟨d, hd, rfl⟩ := Option.map_eq_some_iff.1 h
    obtain ⟨body, htaken, heq, hbody, hends⟩ := ih hd hends
    exact ⟨a :: body, by simp [htaken], by simp [heq], .byte hquote (fun _ => ha) hbody, hends⟩

/-- A reader that finds the closing delimiter and takes what comes before it fails only if there is
none. -/
theorem eq_none_iff_of_closes {escapes : Bool} {close? : Text → Option Cut}
    (hsome : ∀ {body r}, Closes q escapes s body r → close? s = some ⟨body ++ [q], r⟩)
    (hexists : ∀ {c}, close? s = some c →
      ∃ body, c.taken = body ++ [q] ∧ Closes q escapes s body c.rest) :
    close? s = none ↔ ¬∃ body r, Closes q escapes s body r := by
  rw [← Option.not_isSome_iff_eq_none, Option.isSome_iff_exists, not_iff_not]
  constructor
  · rintro ⟨c, hc⟩
    obtain ⟨body, -, hcloses⟩ := hexists hc
    exact ⟨body, c.rest, hcloses⟩
  · rintro ⟨body, r, hcloses⟩
    exact ⟨_, hsome hcloses⟩

/-! ### Dollar delimiters -/

/-- A mark has one first place. -/
theorem FirstAt.unique {mark : Text} {i j : Nat} (hi : FirstAt mark s i) (hj : FirstAt mark s j) :
    i = j := by
  rcases Nat.lt_trichotomy i j with hlt | heq | hgt
  · exact absurd hi.1 (hj.2 i hlt)
  · exact heq
  · exact absurd hj.1 (hi.2 j hgt)

/-- An occurrence before a mark does not reach beyond it, so what follows has no influence. -/
theorem firstAt_append (mark s r : Text) :
    FirstAt mark (s ++ mark ++ r) s.length ↔ FirstAt mark (s ++ mark) s.length := by
  -- up to its length from the end, `s ++ mark` has room for all of the mark
  have hdrop : ∀ j ≤ s.length,
      (mark <+: (s ++ mark ++ r).drop j ↔ mark <+: (s ++ mark).drop j) := by
    intro j hj
    have hlength : (s ++ mark).length = s.length + mark.length := List.length_append
    rw [List.drop_append_of_le_length (by omega)]
    refine List.isPrefix_append_of_length ?_
    rw [List.length_drop]
    omega
  refine and_congr (hdrop _ (Nat.le_refl _)) (forall₂_congr fun j hj => ?_)
  rw [hdrop j (Nat.le_of_lt hj)]

theorem firstAt_zero {mark : Text} (h : mark <+: s) : FirstAt mark s 0 :=
  ⟨h, fun j hj => absurd hj (Nat.not_lt_zero j)⟩

/-- A text is split at the first place of the mark. -/
theorem firstAt_of_splitAtFirst? {mark before after : Text}
    (h : Text.splitAtFirst? mark s = some (before, after)) : FirstAt mark s before.length := by
  fun_induction Text.splitAtFirst? mark s generalizing before after with
  | case1 hempty =>
    cases h
    rw [List.isEmpty_iff.1 hempty]
    exact firstAt_zero List.nil_prefix
  | case2 => cases h
  | case3 b s hm =>
    cases h
    exact firstAt_zero (List.isPrefixOf_iff_prefix.1 hm)
  | case4 b s hm ih =>
    obtain ⟨⟨x, y⟩, hd, he⟩ := Option.map_eq_some_iff.1 h
    cases he
    obtain ⟨hstarts, hfirst⟩ := ih hd
    refine ⟨hstarts, fun j hj => ?_⟩
    -- the mark is neither here nor earlier in what is left
    cases j with
    | zero => exact fun h => hm (List.isPrefixOf_iff_prefix.2 h)
    | succ j => exact hfirst j (Nat.lt_of_succ_lt_succ hj)

/-- A text that is not split does not have the mark anywhere. -/
theorem splitAtFirst?_eq_none_iff {mark : Text} :
    Text.splitAtFirst? mark s = none ↔ ¬mark <:+: s := by
  fun_induction Text.splitAtFirst? mark s with
  | case1 hempty => simp [List.isEmpty_iff.1 hempty]
  | case2 hempty => simpa [List.infix_nil] using hempty
  | case3 b s hm =>
    have hoccurs : mark <:+: b :: s := (List.isPrefixOf_iff_prefix.1 hm).isInfix
    simp [hoccurs]
  | case4 b s hm ih =>
    rw [List.isPrefixOf_iff_prefix] at hm
    rw [Option.map_eq_none_iff, ih, List.infix_cons_iff]
    simp [hm]

theorem closeDelimiter?_eq_none_iff {mark : Text} :
    closeDelimiter? mark s = none ↔ ¬mark <:+: s := by
  rw [closeDelimiter?, Option.map_eq_none_iff, splitAtFirst?_eq_none_iff]

/-- A mark closes what comes before it exactly if it does not stand there before. -/
theorem closeDelimiter?_eq_some_iff (mark s r : Text) :
    closeDelimiter? mark (s ++ mark ++ r) = some ⟨s ++ mark, r⟩ ↔
      FirstAt mark (s ++ mark) s.length := by
  rw [← firstAt_append mark s r]
  constructor
  · intro h
    obtain ⟨⟨before, after⟩, hsplit, hcut⟩ := Option.map_eq_some_iff.1 h
    obtain rfl : before = s := List.append_cancel_right (congrArg Cut.taken hcut)
    exact firstAt_of_splitAtFirst? hsplit
  · intro hfirst
    have hsome : closeDelimiter? mark (s ++ mark ++ r) ≠ none := by
      rw [Ne, closeDelimiter?_eq_none_iff, not_not]
      exact List.infix_append s mark r
    obtain ⟨c, hc⟩ := Option.ne_none_iff_exists'.1 hsome
    obtain ⟨⟨before, after⟩, hsplit, rfl⟩ := Option.map_eq_some_iff.1 hc
    -- both are the first place of the mark
    have hlength : before.length = s.length := (firstAt_of_splitAtFirst? hsplit).unique hfirst
    have hwhole := splitAtFirst?_eq hsplit
    rw [List.append_assoc, List.append_assoc] at hwhole
    obtain ⟨rfl, hrest⟩ := List.append_inj hwhole hlength
    rw [hc, List.append_cancel_left hrest]

/-! ### Where a token begins -/

/-- Whether a byte can stand neither in a gap nor at the start of a comment, so that it begins a
token of a statement. -/
def beginsToken (b : UInt8) : Bool := !isSpace b && b ≠ 0x2D && b ≠ 0x2F

section BeginsToken

variable {b : UInt8}

/-- Nothing is skipped before a byte that begins a token. -/
theorem skip_of_beginsToken (hb : beginsToken b = true) (mode : Mode) (s : Text) :
    skip mode (b :: s) = ⟨[], b :: s⟩ := by
  simp only [beginsToken, Bool.and_eq_true, Bool.not_eq_true', decide_eq_true_eq] at hb
  obtain ⟨⟨hspace, hdash⟩, hslash⟩ := hb
  -- neither blanks nor a comment: comments begin with a dash or a slash
  have hspacing : ∀ inEscape, spacing inEscape (b :: s) = ⟨[], b :: s⟩ := by
    intro inEscape
    have hspan : Cut.span isSpace (b :: s) = ⟨[], b :: s⟩ := by
      simp [Cut.span, hspace]
    rw [spacing_of_none, hspan]
    rw [hspan]
    simp [skippedComment?, lineComment?, startsEscape, blockComment?, hdash, hslash]
  cases mode with
  | between =>
    have hblank : isBlank b = false := by
      rw [isSpace, Bool.or_eq_false_iff] at hspace
      exact hspace.1
    simp [skip, Cut.span, hblank]
  | inside => exact hspacing false
  | escape => exact hspacing true

/-- Between statements such a byte is read as inside one. -/
theorem read_of_beginsToken (hb : beginsToken b = true) (mode : Mode) (s : Text) :
    read mode (b :: s) = readInside mode.entered (b :: s) := by
  cases mode with
  | inside | escape => rfl
  | between =>
    simp only [beginsToken, isSpace, Bool.and_eq_true, Bool.not_eq_true', Bool.or_eq_false_iff,
      decide_eq_true_eq, decide_eq_false_iff_not] at hb
    obtain ⟨⟨⟨-, hbreak⟩, hdash⟩, hslash⟩ := hb
    have hnone : readBetween? (b :: s) = none := by
      simp [readBetween?, hbreak, hdash, hslash]
    show (readBetween? (b :: s)).getD _ = _
    rw [hnone]
    rfl

/-- A token that begins at once has the place of the lexer.  If no statement was open, it opens
one. -/
theorem next_of_beginsToken (hb : beginsToken b = true) (here : Location) (mode : Mode) (s : Text) :
    let r := readInside mode.entered (b :: s)
    next ⟨b :: s, here, mode⟩ = (⟨r.kind, r.text, here⟩,
      ⟨r.rest, if r.overrun then overrun (here.after r.text) else here.after r.text, r.mode⟩) := by
  simp only [next, skip_of_beginsToken hb, read_of_beginsToken hb, Location.after_nil]

end BeginsToken

/-! ### Openers -/

/-- The next token is the string `text`, and the lexer goes on with the text `r`, with the statement
still open. -/
def ReadsString (here : Location) (mode : Mode) (text r : Text) : Prop :=
  next ⟨text ++ r, here, mode⟩ = (⟨.string, text, here⟩, ⟨r, here.after text, mode.entered⟩)

/-- The next token is a string that never ends.  It begins at once and stands for all the rest. -/
def ReadsUnclosed (here : Location) (mode : Mode) (text : Text) : Prop :=
  (next ⟨text, here, mode⟩).1 = ⟨.illegal (.unclosed .string), text, here⟩ ∧
    (next ⟨text, here, mode⟩).1.literal = Text.utf8 "unterminated string literal" ∧
    (next ⟨text, here, mode⟩).2.rest = []

/-- At `opening` a string is read whose end is found by `close?`. -/
structure Opens (opening : Text) (close? : Text → Option Cut) : Prop where
  begins : ∃ b t, opening = b :: t ∧ beginsToken b = true
  reads : ∀ mode s, ∃ past, (past = true → close? s = none) ∧
    readInside mode (opening ++ s) =
      { readString opening (close? s) (opening ++ s) mode with overrun := past }

section Opens

variable {opening : Text} {close? : Text → Option Cut} {here : Location} {mode : Mode}

/-- A string whose end is found is the next token. -/
theorem Opens.next_of_some (h : Opens opening close?) (hs : close? s = some c) :
    next ⟨opening ++ s, here, mode⟩ = (⟨.string, opening ++ c.taken, here⟩,
      ⟨c.rest, here.after (opening ++ c.taken), mode.entered⟩) := by
  obtain ⟨b, t, rfl, hb⟩ := h.begins
  obtain ⟨past, hpast, hread⟩ := h.reads mode.entered s
  -- the reader does not step past the end of a string that has one
  have hfalse : past = false := by
    rw [← Bool.not_eq_true]
    intro htrue
    rw [hpast htrue] at hs
    cases hs
  rw [List.cons_append, next_of_beginsToken hb]
  rw [List.cons_append] at hread
  rw [hread, hs, hfalse]
  rfl

theorem Opens.next_of_none (h : Opens opening close?) (hs : close? s = none) :
    ReadsUnclosed here mode (opening ++ s) := by
  obtain ⟨b, t, rfl, hb⟩ := h.begins
  obtain ⟨past, -, hread⟩ := h.reads mode.entered s
  rw [ReadsUnclosed, List.cons_append, next_of_beginsToken hb]
  rw [List.cons_append] at hread
  rw [hread, hs]
  exact ⟨rfl, rfl, rfl⟩

/-- A text is read as one string exactly if its end is the one that is found. -/
theorem Opens.readsString_iff (h : Opens opening close?) :
    ReadsString here mode (opening ++ body) r ↔ close? (body ++ r) = some ⟨body, r⟩ := by
  rw [ReadsString, List.append_assoc]
  constructor
  · intro hnext
    cases hs : close? (body ++ r) with
    | none =>
      have hkind := congrArg (·.1.kind) hnext
      rw [(h.next_of_none hs).1] at hkind
      cases hkind
    | some c =>
      rw [h.next_of_some hs] at hnext
      have htext : opening ++ c.taken = opening ++ body := congrArg (·.1.text) hnext
      have hrest : c.rest = r := congrArg (·.2.rest) hnext
      rw [← List.append_cancel_left htext, ← hrest]
  · intro hs
    exact h.next_of_some hs

/-- A string never ends exactly if no end is found. -/
theorem Opens.readsUnclosed_iff (h : Opens opening close?) :
    ReadsUnclosed here mode (opening ++ s) ↔ close? s = none := by
  constructor
  · intro hnext
    cases hs : close? s with
    | none => rfl
    | some c =>
      have hkind := hnext.1
      rw [h.next_of_some hs] at hkind
      cases hkind
  · exact h.next_of_none

end Opens

/-- A byte that begins neither a name nor a number and is no punctuation. -/
theorem readInside_eq_readMark {b : UInt8} (hpunctuation : punctuation? b = none)
    (hname : isNameStart b = false) (hnumber : startsNumber (b :: s) = false) (mode : Mode) :
    readInside mode (b :: s) = readMark mode (b :: s) := by
  simp only [readInside, hpunctuation, startsEscapedString_eq_false hname, hname, hnumber,
    Bool.false_eq_true, if_false]

theorem opens_apostrophe : Opens [0x27] (closeDoubled? 0x27) where
  begins := ⟨0x27, [], rfl, rfl⟩
  reads mode s := by
    refine ⟨false, nofun, ?_⟩
    show readInside mode (0x27 :: s) = _
    rw [readInside_eq_readMark rfl rfl rfl]
    show readString [0x27] (closeDoubled? 0x27 s) (0x27 :: s) mode = _
    cases closeDoubled? 0x27 s <;> rfl

theorem opens_escaped {e : UInt8} (he : e = 0x45 ∨ e = 0x65) : Opens [e, 0x27] closeEscaped? where
  begins := ⟨e, [0x27], rfl, by rcases he with rfl | rfl <;> rfl⟩
  reads mode s := by
    refine ⟨(closeEscaped? s).isNone && escapesPastEnd s, ?_, ?_⟩
    · intro hpast
      rw [Bool.and_eq_true, Option.isNone_iff_eq_none] at hpast
      exact hpast.1
    · rcases he with rfl | rfl <;> rfl

theorem dollarDelimiter?_dollarMark {tag : Text} (h : IsTag tag) (s : Text) :
    dollarDelimiter? (dollarMark tag ++ s) = some ⟨dollarMark tag, s⟩ := by
  -- the tag is all bytes up to the second dollar sign
  have hspan : Cut.span isTagByte (tag ++ 0x24 :: s) = ⟨tag, 0x24 :: s⟩ := by
    refine span_append (fun b hb => ?_) rfl
    simpa [isTagByte] using h.bytes b hb
  have hfirst : tag.head?.any Text.isDigit = false := by
    cases htag : tag.head? with
    | none => rfl
    | some b => exact h.first b htag
  have hmark : dollarMark tag ++ s = 0x24 :: (tag ++ 0x24 :: s) := by simp [dollarMark]
  rw [hmark]
  simp only [dollarDelimiter?, hspan, hfirst, Bool.false_eq_true, if_false]
  rfl

/-- A dollar delimiter opens a string that ends where the delimiter stands again. -/
theorem opens_dollar {tag : Text} (h : IsTag tag) :
    Opens (dollarMark tag) (closeDelimiter? (dollarMark tag)) where
  begins := ⟨0x24, tag ++ [0x24], rfl, rfl⟩
  reads mode s := by
    refine ⟨false, nofun, ?_⟩
    have hread : readInside mode (dollarMark tag ++ s) = readDollar (dollarMark tag ++ s) mode :=
      readInside_eq_readMark rfl rfl rfl mode
    rw [hread, readDollar, dollarDelimiter?_dollarMark h]
    dsimp only
    cases closeDelimiter? (dollarMark tag) s <;> rfl

/-! ### Strings are read as they are written -/

/-- Any text `s` that is written as a string is read as this one string.  A plain string and an `E`
string are followed by no apostrophe, which would belong to them; a dollar string is read so exactly
if its delimiter stands nowhere before.  An opener without a closing delimiter is read as a string
that never ends, and only then. -/
theorem next_string (here : Location) (mode : Mode) (s : Text) :
    (∀ r, r.head? ≠ some 0x27 → ReadsString here mode (plainString s) r) ∧
    (∀ e r, e = 0x45 ∨ e = 0x65 → r.head? ≠ some 0x27 →
      ReadsString here mode (escapedString e s) r) ∧
    (∀ tag r, IsTag tag → (ReadsString here mode (dollarString tag s) r ↔
      FirstAt (dollarMark tag) (s ++ dollarMark tag) s.length)) ∧
    (ReadsUnclosed here mode ([0x27] ++ s) ↔ ¬∃ body r, Closes 0x27 false s body r) ∧
    (∀ e, e = 0x45 ∨ e = 0x65 →
      (ReadsUnclosed here mode ([e, 0x27] ++ s) ↔ ¬∃ body r, Closes 0x27 true s body r)) ∧
    (∀ tag, IsTag tag →
      (ReadsUnclosed here mode (dollarMark tag ++ s) ↔ ¬dollarMark tag <:+: s)) := by
  refine ⟨fun r hr => ?_, fun e r he hr => ?_, fun tag r htag => ?_, ?_, fun e he => ?_,
    fun tag htag => ?_⟩
  · refine opens_apostrophe.readsString_iff.2 (closeDoubled?_of_closes ⟨?_, ?_, hr⟩)
    · rw [List.append_assoc, List.singleton_append]
    · exact quotedBody_doubled 0x27 s
  · refine (opens_escaped he).readsString_iff.2 (closeEscaped?_of_closes ⟨?_, ?_, hr⟩)
    · rw [List.append_assoc, List.singleton_append]
    · exact quotedBody_backslashed s
  · exact (opens_dollar htag).readsString_iff.trans (closeDelimiter?_eq_some_iff _ s r)
  · exact opens_apostrophe.readsUnclosed_iff.trans
      (eq_none_iff_of_closes closeDoubled?_of_closes exists_closes_of_closeDoubled?)
  · exact (opens_escaped he).readsUnclosed_iff.trans
      (eq_none_iff_of_closes closeEscaped?_of_closes exists_closes_of_closeEscaped?)
  · exact (opens_dollar htag).readsUnclosed_iff.trans closeDelimiter?_eq_none_iff

end SqlStubs.Lexer
