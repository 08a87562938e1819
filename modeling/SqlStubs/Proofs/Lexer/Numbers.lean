import Mathlib.Data.List.Infix
import SqlStubs.Proofs.Lexer.Strings
import SqlStubs.Proofs.Lexer.Truncation

/-!
# Numbers

`next_number`: where a number begins, the next token is the longest number at the front of the text.
It is an integer if it is made of digits only, and a float otherwise.

What a number is, is said by a grammar (`IsNumber`) that knows nothing of how numbers are read: a
mantissa, and an exponent or none.  The reader takes one part after the other, each as long as it
can be, and never gives anything back.  The number is the longest one all the same, since a mantissa
has no byte that an exponent begins with, so before an exponent only one mantissa can be read
(`mantissa_append`).  What can be read of a mantissa depends on one byte behind it: a point after
digits belongs to them unless a second point follows (`NumberAt.onePoint`).
-/

namespace SqlStubs.Lexer

variable {s d e m q r : Text}

/-! ### The form of a number -/

/-- One or more digits. -/
structure IsDigits (s : Text) : Prop where
  ne_nil : s ≠ []
  all : ∀ b ∈ s, Text.isDigit b = true

/-- The part of a number before its exponent: digits, or digits and a point with more digits behind
it or none, or a point and digits. -/
inductive IsMantissa : Text → Prop
  | whole {d : Text} (hd : IsDigits d) : IsMantissa d
  | point {d f : Text} (hd : IsDigits d) (hf : ∀ b ∈ f, Text.isDigit b = true) :
      IsMantissa (d ++ 0x2E :: f)
  | fraction {f : Text} (hf : IsDigits f) : IsMantissa (0x2E :: f)

/-- An exponent: `e` or `E`, a sign or none, and digits. -/
inductive IsExponent : Text → Prop
  | unsigned {a : UInt8} {d : Text} (ha : a = 0x65 ∨ a = 0x45) (hd : IsDigits d) :
      IsExponent (a :: d)
  | signed {a b : UInt8} {d : Text} (ha : a = 0x65 ∨ a = 0x45) (hb : b = 0x2B ∨ b = 0x2D)
      (hd : IsDigits d) : IsExponent (a :: b :: d)

/-- A number: a mantissa, and an exponent or none. -/
inductive IsNumber : Text → Prop
  | plain {m : Text} (hm : IsMantissa m) : IsNumber m
  | scaled {m e : Text} (hm : IsMantissa m) (he : IsExponent e) : IsNumber (m ++ e)

/-- The text `p` is a number at the front of the text `s`.  A point after leading digits belongs to
it only if no second point follows in `s`. -/
structure NumberAt (s p : Text) : Prop where
  starts : p <+: s
  number : IsNumber p
  onePoint : ∀ d, IsDigits d → d ++ [0x2E] <+: p → ¬d ++ [0x2E, 0x2E] <+: s

/-- The text `p` is the longest number at the front of the text `s`. -/
structure LongestNumber (s p : Text) : Prop where
  numberAt : NumberAt s p
  longest : ∀ q, NumberAt s q → q.length ≤ p.length

/-- A number begins at a digit, or at a point before a digit. -/
inductive BeginsNumber : Text → Prop
  | digit {b : UInt8} {s : Text} (hb : Text.isDigit b = true) : BeginsNumber (b :: s)
  | point {b : UInt8} {s : Text} (hb : Text.isDigit b = true) : BeginsNumber (0x2E :: b :: s)

/-- A mantissa has only digits and points. -/
theorem IsMantissa.bytes (hm : IsMantissa m) : ∀ b ∈ m, Text.isDigit b = true ∨ b = 0x2E := by
  intro b hb
  cases hm with
  | whole hd => exact .inl (hd.all b hb)
  | point hd hf =>
    rw [List.mem_append, List.mem_cons] at hb
    rcases hb with hb | rfl | hb
    · exact .inl (hd.all b hb)
    · exact .inr rfl
    · exact .inl (hf b hb)
  | fraction hf =>
    rw [List.mem_cons] at hb
    rcases hb with rfl | hb
    · exact .inr rfl
    · exact .inl (hf.all b hb)

/-! ### Digits -/

theorem IsDigits.startsWithDigit_append (hd : IsDigits d) (r : Text) :
    startsWithDigit (d ++ r) = true := by
  obtain ⟨b, t, rfl⟩ := List.exists_cons_of_ne_nil hd.ne_nil
  exact hd.all b List.mem_cons_self

/-- Where a digit stands first, at least one digit is taken. -/
theorem isDigits_span (h : startsWithDigit s = true) :
    IsDigits (Cut.span Text.isDigit s).taken := by
  refine ⟨fun hnil => ?_, mem_span⟩
  rw [startsWithDigit_eq_false.2 hnil] at h
  cases h

/-- All digits at the front of a text are taken. -/
theorem prefix_span (hd : ∀ b ∈ d, Text.isDigit b = true) (r : Text) :
    d <+: (Cut.span Text.isDigit (d ++ r)).taken := by
  rw [Cut.span, List.takeWhile_append_of_pos hd]
  exact List.prefix_append d _

/-! ### Mantissas -/

/-- The mantissa at the front of a text. -/
def mantissa (s : Text) : Cut :=
  let whole := Cut.span Text.isDigit s
  (fraction (!whole.taken.isEmpty) whole.rest).prepend whole.taken

/-- A number is its mantissa and the exponent behind it. -/
theorem number_eq (s : Text) :
    number s = (exponent (mantissa s).rest).prepend (mantissa s).taken := rfl

theorem whole_mantissa (s : Text) : (mantissa s).whole = s := by
  rw [mantissa, Cut.whole_prepend, whole_fraction]
  exact Cut.whole_span Text.isDigit s

/-- Digits are followed by a fraction or by nothing. -/
theorem mantissa_of_digits (hd : IsDigits d) (hr : r.head?.any Text.isDigit = false) :
    mantissa (d ++ r) = (fraction true r).prepend d := by
  have hempty : d.isEmpty = false := List.isEmpty_eq_false_iff.2 hd.ne_nil
  rw [mantissa, span_append hd.all hr, hempty]
  rfl

/-- A point is the start of a fraction if a digit follows, or after digits if no point follows. -/
theorem fraction_point {afterDigits : Bool}
    (h : startsWithDigit s = true ∨ afterDigits = true ∧ s.head? ≠ some 0x2E) :
    fraction afterDigits (0x2E :: s) = (Cut.span Text.isDigit s).prepend [0x2E] := by
  have hcond : (startsWithDigit s || (afterDigits && decide (s.head? ≠ some 0x2E))) = true := by
    simpa using h
  rw [fraction, if_pos hcond]

theorem mantissa_point (h : startsWithDigit s = true) :
    mantissa (0x2E :: s) = (Cut.span Text.isDigit s).prepend [0x2E] := by
  show fraction false (0x2E :: s) = _
  exact fraction_point (.inl h)

/-- A fraction that is read is a point and digits. -/
theorem taken_fraction (afterDigits : Bool) (s : Text) :
    (fraction afterDigits s).taken = [] ∨
      ∃ f, (∀ b ∈ f, Text.isDigit b = true) ∧ (fraction afterDigits s).taken = 0x2E :: f := by
  unfold fraction
  split
  · split
    · exact .inr ⟨_, mem_span, rfl⟩
    · exact .inl rfl
  · exact .inl rfl

/-- What is read as a mantissa is one. -/
theorem isMantissa_mantissa (hs : BeginsNumber s) : IsMantissa (mantissa s).taken := by
  cases hs with
  | @digit b s hb =>
    have hdigits : IsDigits (Cut.span Text.isDigit (b :: s)).taken := isDigits_span hb
    rw [mantissa, Cut.taken_prepend]
    -- behind the digits there is no point, or one that belongs to them
    obtain hnil | ⟨f, hf, hpoint⟩ := taken_fraction
      (!(Cut.span Text.isDigit (b :: s)).taken.isEmpty) (Cut.span Text.isDigit (b :: s)).rest
    · rw [hnil, List.append_nil]
      exact .whole hdigits
    · rw [hpoint]
      exact .point hdigits hf
  | @point b s hb =>
    rw [mantissa_point (s := b :: s) hb]
    exact .fraction (isDigits_span hb)

/-- No mantissa at the front of a text is longer than the one that is read. -/
theorem prefix_mantissa (hm : IsMantissa m) (hs : m <+: s)
    (hpoint : ∀ d, IsDigits d → d ++ [0x2E] <+: m → ¬d ++ [0x2E, 0x2E] <+: s) :
    m <+: (mantissa s).taken := by
  obtain ⟨r, rfl⟩ := hs
  cases hm with
  | whole hd => exact (prefix_span hd.all r).trans (List.prefix_append _ _)
  | @point d f hd hf =>
    -- behind the point there is no second one: `s` would go on with both of them
    have hsecond : (f ++ r).head? ≠ some 0x2E := by
      intro hhead
      obtain ⟨t, ht⟩ := List.head?_eq_some_iff.1 hhead
      refine hpoint d hd ⟨f, by simp⟩ ⟨t, ?_⟩
      simp [ht]
    have hmantissa : mantissa (d ++ 0x2E :: f ++ r) =
        ((Cut.span Text.isDigit (f ++ r)).prepend [0x2E]).prepend d := by
      rw [List.append_assoc, List.cons_append, mantissa_of_digits hd rfl,
        fraction_point (.inr ⟨rfl, hsecond⟩)]
    rw [hmantissa, Cut.taken_prepend, Cut.taken_prepend, List.singleton_append,
      List.prefix_append_right_inj, List.prefix_cons_inj]
    exact prefix_span hf r
  | @fraction f hf =>
    rw [List.cons_append, mantissa_point (hf.startsWithDigit_append r), Cut.taken_prepend,
      List.singleton_append, List.prefix_cons_inj]
    exact prefix_span hf.all r

/-! ### Exponents -/

/-- The letter begins an exponent if a digit follows, or a sign and a digit. -/
theorem exponent_cons {a : UInt8} (ha : a = 0x65 ∨ a = 0x45)
    (h : startsWithDigit (sign s).rest = true) :
    exponent (a :: s) = (Cut.span Text.isDigit (sign s).rest).prepend (a :: (sign s).taken) := by
  have hcond : ((a = 0x65 || a = 0x45) && startsWithDigit (sign s).rest) = true := by
    simpa [h] using ha
  rw [exponent, if_pos hcond]

/-- Digits have no sign in front. -/
theorem sign_of_digits (hd : IsDigits d) (r : Text) : sign (d ++ r) = ⟨[], d ++ r⟩ := by
  have hstarts := hd.startsWithDigit_append r
  unfold sign
  split
  · rename_i heq
    rw [heq] at hstarts
    cases hstarts
  · rename_i heq
    rw [heq] at hstarts
    cases hstarts
  · rfl

theorem taken_sign (s : Text) :
    (sign s).taken = [] ∨ ∃ b, (b = 0x2B ∨ b = 0x2D) ∧ (sign s).taken = [b] := by
  unfold sign
  split
  · exact .inr ⟨_, .inl rfl, rfl⟩
  · exact .inr ⟨_, .inr rfl, rfl⟩
  · exact .inl rfl

/-- What is read as an exponent is one. -/
theorem taken_exponent (s : Text) :
    (exponent s).taken = [] ∨ IsExponent (exponent s).taken := by
  unfold exponent
  split
  · exact .inl rfl
  · rename_i a t
    split
    · rename_i hcond
      rw [Bool.and_eq_true, Bool.or_eq_true, decide_eq_true_iff, decide_eq_true_iff] at hcond
      obtain ⟨ha, hdigit⟩ := hcond
      have hdigits := isDigits_span hdigit
      right
      obtain hnone | ⟨b, hb, hsign⟩ := taken_sign t
      · rw [hnone]
        exact .unsigned ha hdigits
      · rw [hsign]
        exact .signed ha hb hdigits
    · exact .inl rfl

/-- No exponent at the front of a text is longer than the one that is read. -/
theorem prefix_exponent (he : IsExponent e) (r : Text) : e <+: (exponent (e ++ r)).taken := by
  cases he with
  | @unsigned a d ha hd =>
    have hsign := sign_of_digits hd r
    have hdigit : startsWithDigit (sign (d ++ r)).rest = true := by
      rw [hsign]
      exact hd.startsWithDigit_append r
    rw [List.cons_append, exponent_cons ha hdigit, hsign]
    exact (List.prefix_cons_inj a).2 (prefix_span hd.all r)
  | @signed a b d ha hb hd =>
    have hsign : sign (b :: (d ++ r)) = ⟨[b], d ++ r⟩ := by
      rcases hb with rfl | rfl <;> rfl
    have hdigit : startsWithDigit (sign (b :: (d ++ r))).rest = true := by
      rw [hsign]
      exact hd.startsWithDigit_append r
    rw [List.cons_append, List.cons_append, exponent_cons ha hdigit, hsign]
    exact (List.prefix_append_right_inj [a, b]).2 (prefix_span hd.all r)

/-- A mantissa before an exponent is all that is read of one, as it cannot go on with a letter. -/
theorem mantissa_append (hs : BeginsNumber (m ++ (e ++ r))) (he : IsExponent e)
    (hm : m <+: (mantissa (m ++ (e ++ r))).taken) :
    mantissa (m ++ (e ++ r)) = ⟨m, e ++ r⟩ := by
  have hbytes := (isMantissa_mantissa hs).bytes
  have hwhole := whole_mantissa (m ++ (e ++ r))
  -- only three facts about the mantissa matter: how it begins, its bytes and that nothing is lost
  generalize mantissa (m ++ (e ++ r)) = c at hm hbytes hwhole ⊢
  obtain ⟨x, hx⟩ := hm
  rw [Cut.whole, ← hx, List.append_assoc, List.append_right_inj] at hwhole
  cases x with
  | nil =>
    rw [List.append_nil] at hx
    rw [List.nil_append] at hwhole
    rw [hx, ← hwhole]
  | cons b x =>
    -- a longer mantissa would hold the letter of the exponent
    have hletter : b = 0x65 ∨ b = 0x45 := by
      cases he with
      | unsigned ha | signed ha =>
        obtain rfl := (List.cons.inj hwhole).1
        exact ha
    have hbyte : Text.isDigit b = true ∨ b = 0x2E := hbytes b (by simp [← hx])
    rcases hletter with rfl | rfl <;> rcases hbyte with h | h <;> cases h

/-! ### Numbers -/

/-- What is read as a number is one. -/
theorem isNumber_number (hs : BeginsNumber s) : IsNumber (number s).taken := by
  have hmantissa := isMantissa_mantissa hs
  rw [number_eq, Cut.taken_prepend]
  rcases taken_exponent (mantissa s).rest with hnone | hexponent
  · rw [hnone, List.append_nil]
    exact .plain hmantissa
  · exact .scaled hmantissa hexponent

/-- Digits before two points are a number by themselves. -/
theorem number_two_points (hd : IsDigits d) (r : Text) :
    number (d ++ 0x2E :: 0x2E :: r) = ⟨d, 0x2E :: 0x2E :: r⟩ := by
  have hfraction : fraction true (0x2E :: 0x2E :: r) = ⟨[], 0x2E :: 0x2E :: r⟩ := rfl
  have hexponent : exponent (0x2E :: 0x2E :: r) = ⟨[], 0x2E :: 0x2E :: r⟩ := rfl
  rw [number_eq, mantissa_of_digits hd rfl, hfraction, Cut.rest_prepend, hexponent]
  simp [Cut.prepend]

/-- The number that is read stands at the front and keeps to the rule on second points. -/
theorem numberAt_number (hs : BeginsNumber s) : NumberAt s (number s).taken := by
  refine ⟨⟨_, whole_number s⟩, isNumber_number hs, ?_⟩
  rintro d hd htaken ⟨r, rfl⟩
  -- before two points only `d` is read, which is shorter than `d` with a point
  rw [List.append_assoc] at htaken
  have hnumber : (number (d ++ ([0x2E, 0x2E] ++ r))).taken = d :=
    congrArg Cut.taken (number_two_points hd r)
  have hlength := htaken.length_le
  rw [hnumber, List.length_append, List.length_singleton] at hlength
  omega

/-- No number at the front of a text is longer than the one that is read. -/
theorem prefix_number (hs : BeginsNumber s) (hq : NumberAt s q) : q <+: (number s).taken := by
  obtain ⟨hstarts, hnumber, hpoint⟩ := hq
  rw [number_eq, Cut.taken_prepend]
  cases hnumber with
  | plain hm => exact (prefix_mantissa hm hstarts hpoint).trans (List.prefix_append _ _)
  | @scaled m e hm he =>
    have hprefix : m <+: (mantissa s).taken :=
      prefix_mantissa hm ((List.prefix_append m e).trans hstarts)
        fun d hd hdm => hpoint d hd (hdm.trans (List.prefix_append m e))
    obtain ⟨r, rfl⟩ := hstarts
    rw [List.append_assoc] at hs hprefix ⊢
    -- the mantissas are the same, so the exponents can be compared
    rw [mantissa_append hs he hprefix, List.prefix_append_right_inj]
    exact prefix_exponent he r

/-- The number that is read is the longest. -/
theorem longestNumber_number (hs : BeginsNumber s) : LongestNumber s (number s).taken :=
  ⟨numberAt_number hs, fun _ hq => (prefix_number hs hq).length_le⟩

/-! ### Number tokens -/

section Digit

variable {b : UInt8}

theorem punctuation?_of_isDigit (hb : Text.isDigit b = true) : punctuation? b = none := by
  cases hkind : punctuation? b with
  | none => rfl
  | some kind =>
    unfold punctuation? at hkind
    split at hkind <;> cases hkind <;> cases hb

theorem isNameStart_of_isDigit (hb : Text.isDigit b = true) : isNameStart b = false := by
  grind [Text.isDigit, isNameStart, Text.isUpper, Text.isLower]

theorem beginsToken_of_isDigit (hb : Text.isDigit b = true) : beginsToken b = true := by
  grind [Text.isDigit, beginsToken, isSpace, isBlank]

end Digit

/-- What begins a number is neither punctuation nor the start of a word or of a gap. -/
theorem BeginsNumber.exists_cons (hs : BeginsNumber s) :
    ∃ b t, s = b :: t ∧ punctuation? b = none ∧ isNameStart b = false ∧ beginsToken b = true ∧
      startsNumber s = true := by
  cases hs with
  | @digit b t hb =>
    refine ⟨b, t, rfl, punctuation?_of_isDigit hb, isNameStart_of_isDigit hb,
      beginsToken_of_isDigit hb, ?_⟩
    unfold startsNumber
    split
    · rename_i heq
      obtain ⟨rfl, -⟩ := List.cons.inj heq
      cases hb
    · exact hb
  | point hb => exact ⟨_, _, rfl, rfl, rfl, rfl, hb⟩

/-- Numbers are read by longest match.  Where a number begins, the next token is the longest number
at the front of the text, and the lexer goes on behind it with the statement still open.  The token
is an integer if all its bytes are digits, and a float otherwise. -/
theorem next_number (here : Location) (mode : Mode) (hs : BeginsNumber s) :
    ∃ p r, s = p ++ r ∧ LongestNumber s p ∧
      next ⟨s, here, mode⟩ =
        (⟨if p.all Text.isDigit then .integer else .float, p, here⟩,
          ⟨r, here.after p, mode.entered⟩) ∧
      (next ⟨s, here, mode⟩).1.literal = p := by
  obtain ⟨b, t, rfl, hpunctuation, hname, htoken, hnumber⟩ := hs.exists_cons
  have hread : readInside mode.entered (b :: t) =
      .ofCut (numberKind (number (b :: t)).taken) (number (b :: t)) mode.entered := by
    simp only [readInside, hpunctuation, startsEscapedString_eq_false hname, hnumber,
      Bool.false_eq_true, if_false, if_true]
  have hnext := next_of_beginsToken htoken here mode t
  rw [hread, numberKind] at hnext
  refine ⟨_, _, (whole_number (b :: t)).symm, longestNumber_number hs, hnext, ?_⟩
  rw [hnext]
  split <;> rfl

/-- A point before an exponent belongs to the number, and the point behind it to the next one. -/
theorem next_number_exponent_after_point :
    let s := Text.utf8 "1.e+3.5"
    BeginsNumber s ∧ LongestNumber s (Text.utf8 "1.e+3") ∧
      next ⟨s, {}, .inside⟩ =
        (⟨.float, Text.utf8 "1.e+3", {}⟩, ⟨Text.utf8 ".5", ⟨1, 6, 5⟩, .inside⟩) := by
  intro s
  have hs : BeginsNumber s := by
    have htext : s = 0x31 :: Text.utf8 ".e+3.5" := by decide +kernel
    rw [htext]
    exact .digit rfl
  have hread : next ⟨s, {}, .inside⟩ =
      (⟨.float, Text.utf8 "1.e+3", {}⟩, ⟨Text.utf8 ".5", ⟨1, 6, 5⟩, .inside⟩) := by
    decide +kernel
  obtain ⟨p, r, -, hlongest, hnext, -⟩ := next_number {} .inside hs
  have hp : Text.utf8 "1.e+3" = p := by
    rw [hread] at hnext
    exact congrArg (·.1.text) hnext
  subst hp
  exact ⟨hs, hlongest, hread⟩

/-- Two points are not part of a number, and neither is an exponent without a digit. -/
example : number (Text.utf8 "7..5") = ⟨Text.utf8 "7", Text.utf8 "..5"⟩ ∧
    number (Text.utf8 ".5e+") = ⟨Text.utf8 ".5", Text.utf8 "e+"⟩ := by
  decide +kernel

end SqlStubs.Lexer
