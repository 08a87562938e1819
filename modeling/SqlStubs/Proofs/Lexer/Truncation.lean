import SqlStubs.Proofs.Lexer.Closing
import SqlStubs.Proofs.Lexer.Reached

/-!
# Cutting a source off

`tokens_take`: if a source is cut off at a token that begins a statement, the tokens before it stay
the same, although the reader looks beyond a token to see where it ends and now finds the end of the
source there.

A token that is read with some text to spare is also read if the text ends in the spared part
(`next_truncate`).  There is one exception: a point between digits and a second point is a token,
and a point between digits and the end belongs to the digits.  It is of no concern where a statement
begins, since nothing that ends in a point alone ends a statement (`Reads.not_between_of_dot`).
-/

namespace SqlStubs.Lexer

variable {s r b : Text} {c : Cut}

/-! ### Numbers

What is read of a number stays the same if the source is cut off somewhere behind it. -/

section Number

variable {x y : Text}

/-- A cut that leaves the text behind the place where the source is cut off takes the same of the
shorter source. -/
theorem Cut.taken_append_eq (hwhole : c.whole = x ++ b) (h : c.rest = y ++ b) :
    c.taken ++ y = x := by
  rw [Cut.whole, h, ← List.append_assoc] at hwhole
  exact List.append_cancel_right hwhole

/-- The bytes of one class are the same of the shorter source: the first byte after them is of
another class, or the source ends there. -/
theorem span_truncate {p : UInt8 → Bool} (h : (Cut.span p (x ++ b)).rest = y ++ b) :
    Cut.span p x = ⟨(Cut.span p (x ++ b)).taken, y⟩ := by
  have hx := Cut.taken_append_eq (Cut.whole_span p (x ++ b)) h
  have hhead := head?_rest_span p (x ++ b)
  rw [h] at hhead
  have hspan : Cut.span p ((Cut.span p (x ++ b)).taken ++ y) = ⟨(Cut.span p (x ++ b)).taken, y⟩ :=
    span_append mem_span (head?_any_of_append hhead)
  rwa [hx] at hspan

theorem startsWithDigit_append (hx : x ≠ []) : startsWithDigit (x ++ b) = startsWithDigit x := by
  rw [startsWithDigit, head?_append_of_ne_nil hx, startsWithDigit]

/-- No digit is in front exactly if the run of digits in front is empty. -/
theorem startsWithDigit_eq_false :
    startsWithDigit x = false ↔ (Cut.span Text.isDigit x).taken = [] := by
  cases x with
  | nil => simp [startsWithDigit, Cut.span]
  | cons a x => by_cases ha : Text.isDigit a = true <;> simp [startsWithDigit, Cut.span, ha]

/-- A fraction begins with a point. -/
theorem fraction_of_ne_dot {afterDigits : Bool} {a : UInt8} (ha : a ≠ 0x2E) :
    fraction afterDigits (a :: s) = ⟨[], a :: s⟩ := by
  unfold fraction
  split <;> simp_all

/-- A last point belongs to the digits before it, so only a second point can part it from them. -/
theorem fraction_dot {afterDigits : Bool} (h : (fraction afterDigits (0x2E :: b)).rest = y ++ b)
    (hdot : ¬(y = [0x2E] ∧ b.head? = some 0x2E)) :
    fraction afterDigits [0x2E] = ⟨(fraction afterDigits (0x2E :: b)).taken, y⟩ := by
  have hx := Cut.taken_append_eq (x := [0x2E]) (whole_fraction afterDigits (0x2E :: b)) h
  simp only [fraction] at hx ⊢
  split at hx
  · -- the point belongs to the digits, and nothing but the point is in front of the cut
    rename_i hpoint
    rw [Cut.taken_prepend, List.cons_append, List.cons_append, List.cons.injEq,
      List.nil_append, List.append_eq_nil_iff] at hx
    rw [if_pos hpoint, Cut.taken_prepend, hx.2.1, hx.2.2]
    rw [startsWithDigit_eq_false.2 hx.2.1, Bool.false_or, Bool.and_eq_true] at hpoint
    rw [hpoint.1]
    rfl
  · -- the point is left although no second point follows, so no digits are before it
    rename_i hpoint
    rw [List.nil_append] at hx
    have hafter : afterDigits = false := by
      have hb : b.head? ≠ some 0x2E := fun hb => hdot ⟨hx, hb⟩
      simp_all
    rw [if_neg hpoint, hafter, hx]
    rfl

/-- Whether a point belongs to the number before it is seen from one byte more. -/
theorem fraction_dot_append {afterDigits : Bool} (hx : x ≠ [])
    (h : (fraction afterDigits (0x2E :: (x ++ b))).rest = y ++ b) :
    fraction afterDigits (0x2E :: x) = ⟨(fraction afterDigits (0x2E :: (x ++ b))).taken, y⟩ := by
  have hwhole := Cut.taken_append_eq (x := 0x2E :: x)
    (whole_fraction afterDigits (0x2E :: (x ++ b))) h
  simp only [fraction, startsWithDigit_append hx, head?_append_of_ne_nil hx] at h hwhole ⊢
  split
  · rename_i hpoint
    rw [if_pos hpoint, Cut.rest_prepend] at h
    rw [span_truncate h]
    rfl
  · rename_i hpoint
    rw [if_neg hpoint, List.nil_append] at hwhole
    rw [hwhole]

/-- A fraction stays the same if the source is cut off behind it, unless it is cut off between two
points after digits: the first then belongs to them. -/
theorem fraction_truncate {afterDigits : Bool} (h : (fraction afterDigits (x ++ b)).rest = y ++ b)
    (hdot : ¬(y = [0x2E] ∧ b.head? = some 0x2E)) :
    fraction afterDigits x = ⟨(fraction afterDigits (x ++ b)).taken, y⟩ := by
  have hx := Cut.taken_append_eq (whole_fraction afterDigits (x ++ b)) h
  cases x with
  | nil =>
    obtain ⟨htaken, rfl⟩ := List.append_eq_nil_iff.1 hx
    rw [htaken]
    rfl
  | cons a x =>
    by_cases ha : a = 0x2E
    -- the point may be the last byte in front of the cut, and only then is the byte behind it out
    -- of sight
    · subst ha
      by_cases hnil : x = []
      · subst hnil
        exact fraction_dot h hdot
      · exact fraction_dot_append hnil h
    · rw [List.cons_append, fraction_of_ne_dot ha] at hx
      rw [List.cons_append, fraction_of_ne_dot ha, fraction_of_ne_dot ha, ← hx]
      rfl

/-- Whether there is a sign is seen from the first byte. -/
theorem sign_append (hx : x ≠ []) : sign (x ++ b) = ⟨(sign x).taken, (sign x).rest ++ b⟩ := by
  cases x with
  | nil => exact absurd rfl hx
  | cons a x =>
    unfold sign
    split <;> simp_all

/-- If no digit follows the sign, then none follows it where the source is cut off. -/
theorem startsWithDigit_sign (h : startsWithDigit (sign (x ++ b)).rest = false) :
    startsWithDigit (sign x).rest = false := by
  by_cases hx : x = []
  · rw [hx]
    rfl
  · rw [sign_append hx] at h
    exact head?_any_of_append h

/-- An exponent has a digit, so none begins at the end of a source that is cut off. -/
theorem exponent_truncate (h : (exponent (x ++ b)).rest = y ++ b) :
    exponent x = ⟨(exponent (x ++ b)).taken, y⟩ := by
  have hwhole := Cut.taken_append_eq (whole_exponent (x ++ b)) h
  cases x with
  | nil =>
    obtain ⟨htaken, rfl⟩ := List.append_eq_nil_iff.1 hwhole
    rw [htaken]
    rfl
  | cons a x =>
    rw [List.cons_append] at h hwhole ⊢
    simp only [exponent] at h hwhole ⊢
    split at h
    · rename_i hexp
      rw [if_pos hexp, Cut.taken_prepend, List.cons_append, List.cons_append,
        List.cons.injEq] at hwhole
      rw [if_pos hexp]
      rw [Bool.and_eq_true] at hexp
      -- what is taken ends in digits, so something stands behind the letter in front of the cut
      have hx : x ≠ [] := by
        rintro rfl
        rw [List.append_eq_nil_iff, List.append_eq_nil_iff, ← startsWithDigit_eq_false,
          hexp.2] at hwhole
        cases hwhole.2.1.2
      rw [sign_append hx, Cut.rest_prepend] at h
      rw [sign_append hx] at hexp ⊢
      have hspan := span_truncate h
      have hdigit : startsWithDigit (sign x).rest = true := by
        rw [← Bool.not_eq_false, startsWithDigit_eq_false, hspan, ← startsWithDigit_eq_false,
          Bool.not_eq_false]
        exact hexp.2
      rw [hexp.1, hdigit, Bool.and_true, if_pos rfl, hspan]
      rfl
    · rename_i hexp
      -- a shorter source shows fewer digits, so no exponent comes up that was not there
      have hx : ¬((a = 0x65 || a = 0x45) && startsWithDigit (sign x).rest) = true := by
        rw [Bool.and_eq_true] at hexp ⊢
        refine fun hx => hexp ⟨hx.1, ?_⟩
        rw [← Bool.not_eq_false]
        intro hfalse
        rw [startsWithDigit_sign hfalse] at hx
        cases hx.2
      rw [if_neg hexp, List.nil_append] at hwhole
      rw [if_neg hx, if_neg hexp, ← hwhole]

/-- An exponent begins with its letter, so a point behind the digits is not part of it. -/
theorem head?_taken_exponent (s : Text) : (exponent s).taken.head? ≠ some 0x2E := by
  unfold exponent
  split
  · simp
  · split
    · rename_i hexp
      intro hdot
      have ha := Option.some.inj hdot
      rw [ha] at hexp
      cases hexp
    · simp

/-- A number stays the same if the source is cut off behind it, but not between two points. -/
theorem number_truncate (h : (number (x ++ b)).rest = y ++ b)
    (hdot : ¬(y = [0x2E] ∧ b.head? = some 0x2E)) :
    number x = ⟨(number (x ++ b)).taken, y⟩ := by
  simp only [number] at h ⊢
  generalize hw : Cut.span Text.isDigit (x ++ b) = w at h ⊢
  have hfraction := whole_fraction (!w.taken.isEmpty) w.rest
  generalize hf : fraction (!w.taken.isEmpty) w.rest = f at h hfraction ⊢
  have hexponent := whole_exponent f.rest
  have htaken := head?_taken_exponent f.rest
  generalize he : exponent f.rest = e at h hexponent htaken ⊢
  -- the three parts leave the same text behind the cut
  have hfrest : f.rest = (e.taken ++ y) ++ b := by
    rw [← hexponent, Cut.whole, h, List.append_assoc]
  have hwrest : w.rest = (f.taken ++ (e.taken ++ y)) ++ b := by
    rw [← hfraction, Cut.whole, hfrest, List.append_assoc f.taken]
  -- the fraction is followed by the exponent, and a point in front of the cut is not in it
  have hdot' : ¬(e.taken ++ y = [0x2E] ∧ b.head? = some 0x2E) := by
    rintro ⟨hpoint, hb⟩
    cases htake : e.taken with
    | nil =>
      rw [htake, List.nil_append] at hpoint
      exact hdot ⟨hpoint, hb⟩
    | cons a t =>
      rw [htake, List.cons_append, List.cons.injEq] at hpoint
      rw [htake, hpoint.1] at htaken
      exact htaken rfl
  have hspan : Cut.span Text.isDigit x = ⟨w.taken, f.taken ++ (e.taken ++ y)⟩ := by
    rw [← hw] at hwrest ⊢
    exact span_truncate hwrest
  rw [hwrest] at hf
  rw [hfrest] at he
  have hfrac := fraction_truncate (by rw [hf]; exact hfrest) hdot'
  have hexp := exponent_truncate (by rw [he]; exact h)
  rw [hf] at hfrac
  rw [he] at hexp
  rw [hspan, hfrac, hexp]

end Number

/-! ### Tokens -/

section Read

variable {mode : Mode} {u : Text}

/-- A string that leaves something has its end. -/
theorem exists_of_rest_readString {opening whole : Text} {body? : Option Cut} (hb : b ≠ [])
    (h : (readString opening body? whole mode).rest = u ++ b) :
    ∃ c, body? = some c ∧ c.rest = u ++ b := by
  cases body? with
  | some c => exact ⟨c, rfl, h⟩
  | none => exact absurd (List.append_eq_nil_iff.1 h.symm).2 hb

/-- A token that begins with a dollar sign stays the same if the source is cut off behind it. -/
theorem readDollar_truncate (hs : s ≠ []) (hb : b ≠ [])
    (h : (readDollar (s ++ b) mode).rest = u ++ b) :
    readDollar s mode = { readDollar (s ++ b) mode with rest := u } := by
  have hwhole := whole_readDollar (s ++ b) mode
  rw [h, ← List.append_assoc, List.append_cancel_right_eq] at hwhole
  unfold readDollar at h hwhole ⊢
  cases hd : dollarDelimiter? (s ++ b) with
  | none =>
    rw [hd] at hwhole
    -- the sign alone is the token, and less text does not make a delimiter of it
    rw [dollarDelimiter?_of_append hd]
    obtain ⟨a, s, rfl⟩ := List.exists_cons_of_ne_nil hs
    have hu : u = s := (List.cons.inj hwhole).2
    rw [hu]
    rfl
  | some d =>
    rw [hd] at h hwhole
    obtain ⟨c, hc, hrest⟩ := exists_of_rest_readString hb h
    dsimp only at hwhole ⊢
    rw [hc] at hwhole ⊢
    -- both the delimiter and the string are over in front of the cut
    have hs : s = d.taken ++ (c.taken ++ u) := by
      rw [← hwhole, ← List.append_assoc]
      rfl
    rw [hs, dollarDelimiter?_append hd]
    dsimp only
    rw [closeDelimiter?_append (taken_dollarDelimiter? hd) hc]
    rfl

/-- A star is a token of its own unless it closes an escape. -/
theorem readMark_star (h : s.head? ≠ some 0x2F ∨ mode ≠ .escape) :
    readMark mode (0x2A :: s) = ⟨.star, [0x2A], s, mode, false⟩ := by
  unfold readMark
  split <;> simp_all

/-- A byte that begins no token is one, and an error. -/
theorem readMark_byte {a : UInt8} (ha : a ∉ [0x3B, 0x2E, 0x2A, 0x27, 0x22, 0x24])
    (hslash : ¬(a = 0x2F ∧ s.head? = some 0x2A)) (hcolon : ¬(a = 0x3A ∧ s.head? = some 0x3A)) :
    readMark mode (a :: s) = ⟨.illegal .byte, [a], s, mode, false⟩ := by
  unfold readMark
  split <;> simp_all

/-- A mark stays the same if the source is cut off behind it. -/
theorem readMark_truncate (hb : b ≠ []) (h : (readMark mode (s ++ b)).rest = u ++ b) :
    readMark mode s = { readMark mode (s ++ b) with rest := u } := by
  have hwhole := whole_readMark mode (s ++ b)
  rw [h, ← List.append_assoc, List.append_cancel_right_eq] at hwhole
  have hs : s ≠ [] := by
    rintro rfl
    exact text_readMark hb (List.append_eq_nil_iff.1 hwhole).1
  -- a token that never ends takes all there is and leaves nothing behind the cut
  have hunclosed : ∀ what whole, (Reading.unclosed what whole mode).rest ≠ u ++ b :=
    fun _ _ hnil => hb (List.append_eq_nil_iff.1 hnil.symm).2
  -- one case for each mark, in the order in which the reader tries them
  generalize hr : readMark mode (s ++ b) = r at h hwhole ⊢
  unfold readMark at hr
  split at hr
  · -- a semicolon and a point are one byte each
    subst hr hwhole
    rfl
  · subst hr hwhole
    rfl
  · split at hr
    · -- a star and a slash that close an escape
      rename_i hescape
      subst hr hwhole
      simp [readMark, hescape]
    · -- outside an escape the star is alone, and a cut may part it from the slash
      rename_i hescape
      subst hr hwhole
      exact readMark_star (.inr hescape)
  · -- a star without a slash after it, and the cut brings up none
    rename_i t ht _
    subst hr hwhole
    refine readMark_star (.inl fun hslash => ?_)
    obtain ⟨t', ht'⟩ := List.head?_eq_some_iff.1 (head?_append_of_head? hslash)
    exact ht t' (h.trans ht')
  · split at hr
    · -- the opening of an escape has a third byte, which is in front of the cut too
      rename_i t _ hopen
      obtain ⟨t, rfl⟩ := List.head?_eq_some_iff.1 hopen.2
      subst hr hwhole
      simp [readMark, hopen.1]
    · subst hr
      exact absurd h (hunclosed _ _)
  · subst hr hwhole
    rfl
  · -- a string in apostrophes ends at the same one, as no second one follows it
    subst hr
    obtain ⟨c, hc, hrest⟩ := exists_of_rest_readString hb h
    rw [hc] at hwhole ⊢
    subst hwhole
    have hclose := closeDoubled?_append hc
      (head?_ne_of_append (hrest ▸ head?_rest_closeDoubled? hc))
    show readString [0x27] (closeDoubled? 0x27 (c.taken ++ u)) _ mode = _
    rw [hclose]
    rfl
  · split at hr
    · -- a name in quotation marks, in the same way
      rename_i c hc
      subst hr hwhole
      have hrest : c.rest = u ++ b := h
      have hclose := closeDoubled?_append hc
        (head?_ne_of_append (hrest ▸ head?_rest_closeDoubled? hc))
      simp [readMark, hclose, Reading.ofCut, Cut.prepend]
    · subst hr
      exact absurd h (hunclosed _ _)
  · -- a dollar sign
    rename_i t heq
    subst hr
    rw [← heq] at h hwhole ⊢
    obtain ⟨a, s, rfl⟩ := List.exists_cons_of_ne_nil hs
    obtain ⟨rfl, -⟩ := List.cons.inj heq
    exact readDollar_truncate hs hb h
  · -- any other byte is an error, and less text cannot complete it to a pair of bytes
    rename_i a t h1 h2 _ h3 hslash hcolon h4 h5 h6 _
    subst hr hwhole
    refine readMark_byte (by simp_all) ?_ ?_
    · rintro ⟨ha, hhead⟩
      obtain ⟨t', ht'⟩ := List.head?_eq_some_iff.1 (head?_append_of_head? hhead)
      exact hslash t' ha (h.trans ht')
    · rintro ⟨ha, hhead⟩
      obtain ⟨t', ht'⟩ := List.head?_eq_some_iff.1 (head?_append_of_head? hhead)
      exact hcolon t' ha (h.trans ht')
  · rename_i hnil
    exact absurd (List.append_eq_nil_iff.1 hnil).2 hb

theorem startsEscapedString_append {a : UInt8} (hs : s ≠ []) :
    startsEscapedString (a :: (s ++ r)) = startsEscapedString (a :: s) := by
  obtain ⟨x, s, rfl⟩ := List.exists_cons_of_ne_nil hs
  unfold startsEscapedString
  split <;> split <;> simp_all

/-- Less text does not make an `E` string of a word. -/
theorem startsEscapedString_of_append {a : UInt8}
    (h : startsEscapedString (a :: (s ++ r)) = false) : startsEscapedString (a :: s) = false := by
  by_cases hs : s = []
  · rw [hs]
    rfl
  · rwa [startsEscapedString_append hs] at h

/-- A point alone begins no number, whatever follows. -/
theorem startsNumber_append (hs : s ≠ []) (hdot : s ≠ [0x2E]) :
    startsNumber (s ++ r) = startsNumber s := by
  obtain ⟨a, s, rfl⟩ := List.exists_cons_of_ne_nil hs
  by_cases ha : a = 0x2E
  · subst ha
    have hs : s ≠ [] := fun hnil => hdot (by rw [hnil])
    exact startsWithDigit_append hs
  · unfold startsNumber
    split <;> split <;> simp_all [startsWithDigit]

/-- Less text does not make a number of a token. -/
theorem startsNumber_of_append (hs : s ≠ []) (h : startsNumber (s ++ r) = false) :
    startsNumber s = false := by
  by_cases hdot : s = [0x2E]
  · rw [hdot]
    rfl
  · rwa [startsNumber_append hs hdot] at h

/-- A token inside a statement stays the same if the source is cut off behind it, but not between
two points. -/
theorem readInside_truncate (hb : b ≠ []) (h : (readInside mode (s ++ b)).rest = u ++ b)
    (hdot : ¬(u = [0x2E] ∧ b.head? = some 0x2E)) :
    readInside mode s = { readInside mode (s ++ b) with rest := u } := by
  have hwhole := whole_readInside mode (s ++ b)
  rw [h, ← List.append_assoc, List.append_cancel_right_eq] at hwhole
  cases s with
  | nil => exact absurd (List.append_eq_nil_iff.1 hwhole).1 (text_readInside hb)
  | cons a s =>
    rw [List.cons_append] at h hwhole ⊢
    simp only [readInside] at h hwhole ⊢
    -- the cases are the kinds of tokens in the order in which they are tried
    cases hkind : punctuation? a with
    | some kind =>
      rw [hkind] at h
      rw [List.append_cancel_right h]
    | none =>
      rw [hkind] at h hwhole
      dsimp only at h hwhole ⊢
      split at h
      · rename_i hstring
        rw [if_pos hstring] at hwhole ⊢
        obtain ⟨c, hc, hrest⟩ := exists_of_rest_readString hb h
        rw [hc] at hwhole ⊢
        obtain ⟨-, rfl⟩ := List.cons.inj hwhole
        -- no second apostrophe follows the end of the string, so it ends there without the rest too
        have hclose := closeEscaped?_append hc
          (head?_ne_of_append (hrest ▸ head?_rest_closeEscaped? hc))
        rw [if_pos (by exact hstring)]
        show { readString [a, 0x27] (closeEscaped? (c.taken ++ u)) _ mode with
          overrun := (closeEscaped? (c.taken ++ u)).isNone && _ : Reading } = _
        rw [hclose]
        rfl
      · rename_i hstring
        have hstring' := startsEscapedString_of_append (by simpa using hstring)
        rw [if_neg hstring, if_neg (by simp [hstring'])]
        split at h
        · rename_i hnumber
          have htruncate := number_truncate (x := a :: s) h hdot
          have hstarts : startsNumber (a :: s) = true := by
            -- a number is more than a point, so with the rest cut off it still begins a number
            have hpoint : a :: s ≠ [0x2E] := by
              intro hpoint
              obtain ⟨rfl, rfl⟩ := List.cons.inj hpoint
              exact taken_number hnumber (congrArg Cut.taken htruncate).symm
            rwa [← List.cons_append, startsNumber_append (by simp) hpoint] at hnumber
          rw [if_pos hnumber, if_pos hstarts, htruncate]
          rfl
        · rename_i hnumber
          have hstarts : startsNumber (a :: s) = false :=
            startsNumber_of_append (by simp) (by simpa using hnumber)
          rw [if_neg hnumber, if_neg (by simp [hstarts])]
          split at h
          · rename_i hname
            have htruncate := span_truncate (x := a :: s) h
            rw [if_pos hname, if_pos hname, htruncate]
            rfl
          · rename_i hname
            rw [if_neg hname, if_neg hname]
            exact readMark_truncate (s := a :: s) hb h

/-- Less text does not bring up a comment or a line break. -/
theorem readBetween?_of_append (hs : s ≠ []) (h : readBetween? (s ++ r) = none) :
    readBetween? s = none := by
  obtain ⟨a, s, rfl⟩ := List.exists_cons_of_ne_nil hs
  unfold readBetween? at h
  split at h
  · rename_i hnil
    cases hnil
  · cases h
  · cases h
  · split at h <;> cases h
  · rename_i hbreak hline hblock
    unfold readBetween?
    split <;> simp_all

/-- A block comment that is closed is a token between statements. -/
theorem readBetween?_of_blockComment? (h : blockComment? s = some c) :
    readBetween? s = some (.ofCut .comment c .between) := by
  have hs : ∃ t, s = 0x2F :: 0x2A :: t := by
    unfold blockComment? at h
    split at h
    · exact ⟨_, rfl⟩
    · cases h
  obtain ⟨t, rfl⟩ := hs
  simp only [readBetween?, h]

/-- A comment or a line break stays the same if the source is cut off behind it. -/
theorem readBetween?_truncate {q : Reading} (hb : b ≠ []) (h : readBetween? (s ++ b) = some q)
    (hrest : q.rest = u ++ b) : readBetween? s = some { q with rest := u } := by
  have hwhole := whole_readBetween? h
  rw [hrest, ← List.append_assoc, List.append_cancel_right_eq] at hwhole
  unfold readBetween? at h
  split at h
  · rename_i hnil
    exact absurd (List.append_eq_nil_iff.1 hnil).2 hb
  · cases h
    subst hwhole
    rfl
  · cases h
    rename_i t heq
    subst hwhole
    -- a line comment ends before a line break, or now at the end of the source
    have hspan : Cut.span (· ≠ 0x0A) ((restOfLine t).taken ++ u) = ⟨(restOfLine t).taken, u⟩ := by
      have hhead := head?_rest_span (· ≠ 0x0A) t
      rw [show (Cut.span (· ≠ 0x0A) t).rest = u ++ b from hrest] at hhead
      exact span_append mem_span (head?_any_of_append hhead)
    show some (Reading.ofCut .comment
      ((restOfLine ((restOfLine t).taken ++ u)).prepend [0x2D, 0x2D]) .between) = _
    rw [restOfLine, hspan]
    rfl
  · split at h
    · rename_i c hc
      cases h
      have hs : c.taken ++ u = s := hwhole
      rw [← hs, readBetween?_of_blockComment? (blockComment?_append hc)]
      rfl
    · cases h
      -- a comment that never ends leaves nothing behind the cut
      exact absurd (List.append_eq_nil_iff.1 hrest.symm).2 hb
  · cases h

/-- A token stays the same if the source is cut off behind it, but not between two points. -/
theorem read_truncate (hb : b ≠ []) (h : (read mode (s ++ b)).rest = u ++ b)
    (hdot : ¬(u = [0x2E] ∧ b.head? = some 0x2E)) :
    read mode s = { read mode (s ++ b) with rest := u } := by
  have hs : s ≠ [] := by
    rintro rfl
    have hwhole := whole_read mode b
    rw [List.nil_append] at h
    rw [h, ← List.append_assoc, List.append_left_eq_self, List.append_eq_nil_iff] at hwhole
    exact text_read hb hwhole.1
  cases mode with
  | inside | escape => exact readInside_truncate hb h hdot
  | between =>
    simp only [read] at h ⊢
    cases hr : readBetween? (s ++ b) with
    | some q =>
      rw [hr] at h
      rw [readBetween?_truncate hb hr h]
      rfl
    | none =>
      rw [hr] at h
      rw [readBetween?_of_append hs hr]
      exact readInside_truncate hb h hdot

/-- Less text does not bring up a comment. -/
theorem skippedComment?_of_append {inEscape : Bool} (h : skippedComment? inEscape (s ++ r) = none) :
    skippedComment? inEscape s = none := by
  cases hc : skippedComment? inEscape s with
  | none => rfl
  | some c =>
    have hwhole := whole_skippedComment? hc
    -- a line comment is seen from its two dashes, so it would be found with the rest as well
    have hline : (lineComment? s).isSome = false := by
      cases hline : lineComment? s with
      | none => rfl
      | some d =>
        rw [lineComment?.eq_def] at hline
        split at hline
        · cases h
        · cases hline
    have hsome := skippedComment?_append (r := c.rest ++ r) hc (by simp [hline])
    rw [← hwhole, Cut.whole, List.append_assoc, hsome] at h
    cases h

/-- A gap stays the same if the source is cut off behind the first byte after it. -/
theorem skip_truncate (hu : u ≠ []) (h : (skip mode (s ++ b)).rest = u ++ b) :
    skip mode s = ⟨(skip mode (s ++ b)).taken, u⟩ := by
  have hs := Cut.taken_append_eq (whole_skip mode (s ++ b)) h
  -- the gap inside a statement ends where neither a space nor a comment stands
  have hspacing : ∀ inEscape, (spacing inEscape (s ++ b)).rest = u ++ b →
      (spacing inEscape (s ++ b)).taken ++ u = s →
      spacing inEscape s = ⟨(spacing inEscape (s ++ b)).taken, u⟩ := by
    intro inEscape hrest hs
    obtain ⟨hspace, hcomment⟩ := rest_spacing inEscape (s ++ b)
    have hne : (spacing inEscape (s ++ b)).rest ≠ [] := by simp [hrest, hu]
    rw [hrest] at hspace hcomment
    have happend := spacing_append hne (head?_any_of_append hspace)
      (skippedComment?_of_append hcomment)
    rwa [hs] at happend
  cases mode with
  | between => exact span_truncate h
  | inside => exact hspacing false h hs
  | escape => exact hspacing true h hs

/-- The next token stays the same if the source is cut off behind it, but not between two points. -/
theorem next_truncate {l : Lexer} (hb : b ≠ []) (hl : l.rest = s ++ b)
    (h : l.next.2.rest = u ++ b) (hdot : ¬(u = [0x2E] ∧ b.head? = some 0x2E)) :
    { l with rest := s }.next = (l.next.1, { l.next.2 with rest := u }) := by
  obtain ⟨rest, here, mode⟩ := l
  obtain rfl : rest = s ++ b := hl
  have hread : (read mode (skip mode (s ++ b)).rest).rest = u ++ b := h
  have hgap : (skip mode (s ++ b)).rest ≠ [] := by
    intro hnil
    rw [hnil, read_nil] at hread
    exact hb (List.append_eq_nil_iff.1 hread.symm).2
  have hwhole := whole_read mode (skip mode (s ++ b)).rest
  rw [hread, ← List.append_assoc] at hwhole
  have hne : (read mode (skip mode (s ++ b)).rest).text ++ u ≠ [] := by
    simp [text_read hgap]
  -- the token has bytes of its own, so the gap is cut off behind its end
  have hskip := skip_truncate hne hwhole.symm
  rw [← hwhole] at hread
  have htoken := read_truncate hb hread hdot
  rw [hwhole] at htoken
  simp only [next, hskip, htoken]

end Read

/-! ### Runs -/

/-- The first of the tokens up to the end is the next token. -/
theorem next_of_toEnd {l : Lexer} {t : Token} {v : List Token} (h : l.toEnd.1.pending = t :: v) :
    l.next.1 = t ∧ l.next.1.kind ≠ .eof ∧ l.next.2.toEnd.1 = ⟨v, l.toEnd.1.stop⟩ := by
  have hstep := Lexer.toEnd.eq_1 l
  by_cases heof : l.next.1.kind = .eof
  · rw [hstep, if_pos heof] at h
    cases h
  · simp only [if_neg heof] at hstep
    rw [hstep] at h ⊢
    obtain ⟨ht, rfl⟩ := List.cons.inj h
    exact ⟨ht, heof, rfl⟩

/-- From the lexer `l` the tokens `w` are read, none of them the end, and `l'` is the lexer after
them. -/
inductive Reads : (l : Lexer) → (w : List Token) → (l' : Lexer) → Prop
  | nil {l : Lexer} : Reads l [] l
  | cons {l l' : Lexer} {w : List Token} (hne : l.next.1.kind ≠ .eof)
      (others : Reads l.next.2 w l') : Reads l (l.next.1 :: w) l'

namespace Reads

variable {l l' : Lexer} {w : List Token} {g : Text}

/-- What is left is a last part of what there was, and the same only if no token was read. -/
theorem exists_rest_eq (h : Reads l w l') : ∃ p, l.rest = p ++ l'.rest ∧ (w ≠ [] → p ≠ []) := by
  induction h with
  | nil => exact ⟨[], rfl, fun hw => absurd rfl hw⟩
  | @cons l l' w hne _ ih =>
    obtain ⟨p, hp, -⟩ := ih
    refine ⟨(skip l.mode l.rest).taken ++ l.next.1.text ++ p, ?_, fun _ => ?_⟩
    · rw [List.append_assoc, ← hp, next_whole]
    · have htext : l.next.1.text ≠ [] := fun hnil => hne (next_text_eq_nil hnil)
      simp [htext]

/-- A run whose first step is known by its result. -/
theorem of_next {m : Lexer} {t : Token} (h : l.next = (t, m)) (hne : t.kind ≠ .eof)
    (others : Reads m w l') : Reads l (t :: w) l' := by
  obtain rfl : l.next.1 = t := by rw [h]
  obtain rfl : l.next.2 = m := by rw [h]
  exact .cons hne others

/-- The tokens up to the end are those of a run and those after it. -/
theorem toEnd (h : Reads l w l') :
    l.toEnd.1 = ⟨w ++ l'.toEnd.1.pending, l'.toEnd.1.stop⟩ := by
  induction h with
  | nil => rfl
  | @cons l l' w hne _ ih =>
    rw [Lexer.toEnd]
    simp only [if_neg hne, ih, List.cons_append]

/-- The first tokens up to the end are read one after the other. -/
theorem of_toEnd {v : List Token} (h : l.toEnd.1.pending = w ++ v) :
    ∃ l', Reads l w l' ∧ l'.toEnd.1 = ⟨v, l.toEnd.1.stop⟩ := by
  induction w generalizing l with
  | nil => exact ⟨l, .nil, by rw [← List.nil_append v, ← h]⟩
  | cons t w ih =>
    obtain ⟨rfl, hne, hnext⟩ := next_of_toEnd h
    obtain ⟨l', hreads, hrest⟩ := ih (congrArg Tokens.pending hnext)
    exact ⟨l', .cons hne hreads, by rw [hrest, hnext]⟩

/-- A run of tokens comes to a place of the same source. -/
theorem reached {source before : Text} (h : Reads l w l') (hl : Reached source before l) :
    ∃ before', Reached source before' l' := by
  induction h generalizing before with
  | nil => exact ⟨before, hl⟩
  | cons hne _ ih => exact ih (hl.next hne)

/-- After a token that leaves no statement open the lexer is between statements. -/
theorem between (h : Reads l w l') (hl : w = [] → l.mode = .between)
    (hw : ∀ t ∈ w.getLast?, t.kind.leavesInside = false) : l'.mode = .between := by
  induction h with
  | nil => exact hl rfl
  | @cons l l' w hne others ih =>
    refine ih ?_ fun t ht => hw t ?_
    · rintro rfl
      exact (sane_read (skip_rest_ne_nil hne)).between (hw l.next.1 rfl)
    · rw [List.getLast?_cons, Option.mem_def.1 ht]
      rfl

end Reads

/-- No gap begins with a point. -/
theorem skip_dot (mode : Mode) (s : Text) : skip mode (0x2E :: s) = ⟨[], 0x2E :: s⟩ := by
  have hspacing : ∀ inEscape, spacing inEscape (0x2E :: s) = ⟨[], 0x2E :: s⟩ := by
    intro inEscape
    have hspan : Cut.span isSpace (0x2E :: s) = ⟨[], 0x2E :: s⟩ := by
      simp [Cut.span, isSpace, isBlank]
    rw [spacing_of_none, hspan]
    rw [hspan]
    simp [skippedComment?, lineComment?, startsEscape, blockComment?]
  cases mode with
  | between => simp [skip, Cut.span, isBlank]
  | inside => exact hspacing false
  | escape => exact hspacing true

/-- A point is a token of a statement, or begins one. -/
theorem mode_read_dot (mode : Mode) (s : Text) : (read mode (0x2E :: s)).mode ≠ .between := by
  -- the point is a token of its own, or the first byte of a number; neither changes the mode
  have hinside : ∀ m : Mode, (readInside m (0x2E :: s)).mode = m := by
    intro m
    have hstring : startsEscapedString (0x2E :: s) = false := startsEscapedString_eq_false rfl
    show (if startsEscapedString (0x2E :: s) then _ else
      if startsNumber (0x2E :: s) then _ else readMark m (0x2E :: s) : Reading).mode = m
    rw [hstring, if_neg (by decide)]
    split <;> rfl
  cases mode with
  | between =>
    have hread : read .between (0x2E :: s) = readInside .inside (0x2E :: s) := rfl
    rw [hread, hinside]
    decide
  | inside | escape =>
    show (readInside _ (0x2E :: s)).mode ≠ _
    rw [hinside]
    decide

namespace Reads

variable {l l' : Lexer} {w : List Token} {g : Text}

/-- After a point alone the lexer is not between statements. -/
theorem not_between_of_dot (h : Reads l w l') (hl : l.rest = 0x2E :: l'.rest) :
    l'.mode ≠ .between := by
  cases h with
  | nil => exact absurd (congrArg List.length hl) (by simp)
  | @cons _ _ w hne others =>
    obtain ⟨p, hp, hlater⟩ := others.exists_rest_eq
    -- one byte is read, and each token has a byte, so there is one token
    have hw : w = [] := by
      have htext := List.length_pos_iff.2 (fun hnil => hne (next_text_eq_nil hnil))
      have hlength := congrArg List.length (next_whole l)
      simp only [hp, hl, List.length_append, List.length_cons] at hlength
      have hnil : p = [] := List.length_eq_zero_iff.1 (by omega)
      cases w with
      | nil => rfl
      | cons t w => exact absurd hnil (hlater (by simp))
    subst hw
    cases others
    show (read l.mode (skip l.mode l.rest).rest).mode ≠ _
    rw [hl, skip_dot]
    exact mode_read_dot _ _

/-- The tokens before a place between two statements stay the same if the source is cut off there,
with the gap `g` after them. -/
theorem truncate (h : Reads l w l') (hb : b ≠ []) (hl : l.rest = s ++ b) (hl' : l'.rest = g ++ b)
    (hg : ∀ a ∈ g, isBlank a = true) (hmode : l'.mode = .between) :
    Reads { l with rest := s } w { l' with rest := g } := by
  induction h generalizing s with
  | @nil l =>
    obtain rfl : s = g := List.append_cancel_right (hl.symm.trans hl')
    exact .nil
  | @cons l l' w hne others ih =>
    -- `p` is what the later tokens read, so the first token leaves `p ++ g` in front of the cut
    obtain ⟨p, hp, hlater⟩ := others.exists_rest_eq
    rw [hl', ← List.append_assoc] at hp
    -- a point at the cut would be the last token, and no statement is open there
    have hdot : ¬(p ++ g = [0x2E] ∧ b.head? = some 0x2E) := by
      rintro ⟨hpoint, -⟩
      rcases List.append_eq_singleton_iff.1 hpoint with ⟨-, rfl⟩ | ⟨rfl, rfl⟩
      · exact absurd (hg 0x2E (by simp)) (by decide)
      · exact others.not_between_of_dot (by rw [hp, hl']; rfl) hmode
    have hnext := next_truncate hb hl hp hdot
    exact of_next hnext hne (ih hp hl' hmode)

end Reads

/-- A token is not before the lexer it is read from, and not behind the lexer after it. -/
theorem here_le_next (l : Lexer) :
    l.here.offset ≤ l.next.1.location.offset ∧
      l.next.1.location.offset ≤ l.next.2.here.offset := by
  constructor
  · show _ ≤ (l.here.after _).offset
    rw [Location.after_offset]
    omega
  · show l.next.1.location.offset ≤ (if _ then overrun _ else _ : Location).offset
    have hafter := Location.after_offset l.next.1.location l.next.1.text
    split
    · show _ ≤ (l.next.1.location.after l.next.1.text).offset + 1
      omega
    · show _ ≤ (l.next.1.location.after l.next.1.text).offset
      omega

/-- No token has its place before that of the lexer it is read from, and neither has the end. -/
theorem here_le_toEnd (l : Lexer) :
    (∀ t ∈ l.toEnd.1.pending, l.here.offset ≤ t.location.offset) ∧
      l.here.offset ≤ l.toEnd.1.stop.offset := by
  fun_induction Lexer.toEnd l with
  | case1 l step heof => exact ⟨by simp, (here_le_next l).1⟩
  | case2 l step hne ts last heq ih =>
    rw [heq] at ih
    obtain ⟨hfirst, hlater⟩ := here_le_next l
    have hle : l.here.offset ≤ step.2.here.offset := Nat.le_trans hfirst hlater
    refine ⟨?_, Nat.le_trans hle ih.2⟩
    rw [List.forall_mem_cons]
    exact ⟨hfirst, fun t ht => Nat.le_trans hle (ih.1 t ht)⟩

/-- Between statements, nothing is read of a source that has only blanks left. -/
theorem pending_toEnd_of_blanks {g : Text} {here : Location} {mode : Mode}
    (hg : ∀ a ∈ g, isBlank a = true) (hmode : mode = .between) :
    (Lexer.mk g here mode).toEnd.1.pending = [] := by
  have hspan : Cut.span isBlank (g ++ []) = ⟨g, []⟩ := span_append hg rfl
  rw [List.append_nil] at hspan
  have heof : (Lexer.mk g here mode).next.1.kind = .eof := by
    show (read mode (skip mode g).rest).kind = .eof
    rw [hmode, skip, hspan, read_nil]
    rfl
  rw [Lexer.toEnd]
  simp only [if_pos heof]

/-- The tokens before the first token of a statement stay the same if the source is cut off there.
All later tokens and the end have later places. -/
theorem tokens_take {source : Text} {w v : List Token} {t : Token} {stop : Location}
    (h : tokens source = ⟨w ++ t :: v, stop⟩)
    (hw : ∀ s ∈ w.getLast?, s.kind.leavesInside = false) :
    (tokens (source.take t.location.offset)).pending = w ∧
      (∀ s ∈ t :: v, t.location.offset ≤ s.location.offset) ∧ t.location.offset ≤ stop.offset := by
  obtain ⟨l, hreads, hl⟩ := Reads.of_toEnd (congrArg Tokens.pending h)
  obtain ⟨before, hreached⟩ := hreads.reached (reached_ofText source)
  obtain ⟨rfl, hne, hnext⟩ := next_of_toEnd (congrArg Tokens.pending hl)
  constructor
  -- the lexer stands before the gap of `t`, between two statements, so the run up to it can be cut
  · have hmode : l.mode = .between := hreads.between (fun _ => rfl) hw
    have hgap := whole_skip l.mode l.rest
    have hsource : source = before ++ (skip l.mode l.rest).taken ++ (skip l.mode l.rest).rest := by
      rw [List.append_assoc, ← Cut.whole, hgap]
      exact hreached.source_eq
    have hcut : source.take l.next.1.location.offset = before ++ (skip l.mode l.rest).taken := by
      rw [hreached.next_offset hne]
      exact (congrArg _ hsource).trans List.take_left
    have hblank : ∀ a ∈ (skip l.mode l.rest).taken, isBlank a = true := by
      rw [hmode]
      exact mem_span
    have hreads' := hreads.truncate (skip_rest_ne_nil hne) hsource hgap.symm hblank hmode
    rw [hcut, tokens]
    refine (congrArg Tokens.pending hreads'.toEnd).trans ?_
    rw [pending_toEnd_of_blanks hblank hmode, List.append_nil]
  -- places only grow along a run
  · obtain ⟨hlater, hstop⟩ := here_le_toEnd l.next.2
    rw [hnext] at hlater hstop
    have hfirst := (here_le_next l).2
    constructor
    · rw [List.forall_mem_cons]
      exact ⟨Nat.le_refl _, fun s hs => Nat.le_trans hfirst (hlater s hs)⟩
    · have hend : l.toEnd.1.stop = stop := by
        rw [hl]
        exact congrArg Tokens.stop h
      rw [← hend]
      exact Nat.le_trans hfirst hstop

end SqlStubs.Lexer
