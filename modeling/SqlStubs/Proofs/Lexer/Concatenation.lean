import Mathlib.Data.List.DropRight
import SqlStubs.Proofs.Lexer.Lossless
import SqlStubs.Proofs.Lexer.Truncation
import SqlStubs.Proofs.Parser.Relocation

/-!
# Two sources one after the other

`tokens_append`: if a source ends with a semicolon or a line break that is a token, then the tokens
of this source followed by another are its own tokens, and after them those of the other source,
moved on to where that source begins now.

The reader looks beyond a token to see where it ends.  At the boundary it finds the other source
instead of the end, and this could make a token longer: a number by an exponent, a dollar sign by
the rest of a delimiter, a slash by a star.  None of these can begin before a semicolon or a line
break and go on behind it (`Cut.exists_rest_eq_append`), and a quotation or comment that can would
not have left the last byte to a token of its own (`read_extend`).  Nothing else is carried over:
after such a token no statement is open, and the place is that of the bytes before
(`Reads.here_eq`).
-/

namespace SqlStubs

/-! ### Places -/

namespace Location

/-- A place of a source that now stands behind the bytes of `s`: it has moved on by their lines and
their number, and on the first line by the columns of their last line. -/
def shift (s : Text) (l : Location) : Location where
  line := l.line + Text.newlines s
  column := if l.line = 1 then l.column + (s.rtakeWhile (· ≠ 0x0A)).length else l.column
  offset := l.offset + s.length

/-- The column behind some bytes counts those behind their last line break. -/
theorem after_column (s : Text) :
    (after {} s).column = 1 + (s.rtakeWhile (· ≠ 0x0A)).length := by
  -- from the back, since the last byte decides whether a new line begins
  induction s using List.reverseRecOn with
  | nil => rfl
  | append_singleton s b ih =>
    have hstep : after {} (s ++ [b]) = (after {} s).step b := by
      rw [after_append, after_cons, after_nil]
    rw [hstep, List.rtakeWhile_concat, step]
    by_cases hb : b = 0x0A
    · simp [hb]
    · simp [hb, ih, Nat.add_assoc]

/-- The place behind the bytes of `s` is where the start of the other source is moved. -/
theorem after_eq_shift (s : Text) : after {} s = shift s {} := by
  have hline := after_line {} s
  have hcolumn := after_column s
  have hoffset := after_offset {} s
  generalize after {} s = l at hline hcolumn hoffset
  obtain ⟨line, column, offset⟩ := l
  simp only at hline hcolumn hoffset
  rw [hline, hcolumn, hoffset]
  rfl

/-- Moving on by one byte and being moved behind another source do not depend on their order. -/
theorem step_shift {s : Text} {l : Location} (b : UInt8) (hl : 1 ≤ l.line) :
    (shift s l).step b = shift s (l.step b) := by
  unfold step
  split
  · -- the next line is not the first
    have hline : l.line + 1 ≠ 1 := by omega
    simp only [shift, if_neg hline, Nat.add_right_comm]
  · simp only [shift, Nat.add_right_comm _ 1, Location.mk.injEq, true_and, and_true]
    split <;> omega

/-- Moving on by a text and being moved behind another source do not depend on their order. -/
theorem after_shift {s : Text} {l : Location} (t : Text) (hl : 1 ≤ l.line) :
    (shift s l).after t = shift s (l.after t) := by
  induction t generalizing l with
  | nil => rfl
  | cons b t ih =>
    have hstep : 1 ≤ (l.step b).line := by
      unfold step
      split <;> simp only <;> omega
    rw [after_cons, after_cons, step_shift b hl, ih hstep]

end Location

/-- Whether a token of this kind ends a statement or a line, so that a source may end with it. -/
def Kind.isBoundary (kind : Kind) : Bool := kind = .semicolon || kind = .newline

namespace Lexer

variable {s t b : Text} {c : Cut} {mode : Mode}

/-! ### The last byte -/

/-- The last byte is a semicolon or a line break. -/
def EndsInBoundary (s : Text) : Prop := s.getLast? = some 0x3B ∨ s.getLast? = some 0x0A

theorem EndsInBoundary.ne_nil (h : EndsInBoundary s) : s ≠ [] := by
  rintro rfl
  rcases h with h | h <;> cases h

/-- The last byte of a text is that of its last part. -/
theorem EndsInBoundary.of_append (h : EndsInBoundary (s ++ t)) (ht : t ≠ []) :
    EndsInBoundary t := by
  have hlast : (s ++ t).getLast? = t.getLast? := by
    rw [List.getLast?_append, List.getLast?_eq_some_getLast ht, Option.some_or]
  unfold EndsInBoundary at h ⊢
  rwa [hlast] at h

/-- A byte that is no boundary is not the last. -/
theorem EndsInBoundary.tail {a : UInt8} (h : EndsInBoundary (a :: s))
    (ha : a ≠ 0x3B ∧ a ≠ 0x0A) : EndsInBoundary s := by
  refine of_append (s := [a]) h ?_
  rintro rfl
  rcases h with h | h
  · exact ha.1 (Option.some.inj h)
  · exact ha.2 (Option.some.inj h)

/-- After a byte that is no boundary the next one is known, whatever the source goes on with. -/
theorem EndsInBoundary.exists_eq_cons {a x : UInt8} {u : Text} (h : EndsInBoundary (a :: s))
    (ha : a ≠ 0x3B ∧ a ≠ 0x0A) (hu : s ++ b = x :: u) : ∃ t, s = x :: t := by
  obtain ⟨y, t, rfl⟩ := List.exists_cons_of_ne_nil (h.tail ha).ne_nil
  exact ⟨t, by rw [(List.cons.inj hu).1]⟩

/-- Such a text has a byte outside of every class without the two boundaries. -/
theorem EndsInBoundary.exists_mem {p : UInt8 → Bool} (h : EndsInBoundary s)
    (hp : p 0x3B = false ∧ p 0x0A = false) : ∃ a ∈ s, p a = false := by
  rcases h with h | h
  · exact ⟨0x3B, List.mem_of_getLast? h, hp.1⟩
  · exact ⟨0x0A, List.mem_of_getLast? h, hp.2⟩

/-- A part whose bytes are of a class without the boundary is over before the last byte. -/
theorem Cut.exists_rest_eq_append {p : UInt8 → Bool} (hs : EndsInBoundary s)
    (hp : p 0x3B = false ∧ p 0x0A = false) (hwhole : c.whole = s ++ b)
    (htaken : ∀ a ∈ c.taken, p a = true) : ∃ y, c.rest = y ++ b ∧ EndsInBoundary y := by
  obtain ⟨a, ha, hpa⟩ := hs.exists_mem hp
  have hlater : a ∉ c.taken := fun hmem => by simp [htaken a hmem] at hpa
  -- the part ends within `s`, or it takes the whole of it, its last byte included
  rcases List.append_eq_append_iff.1 hwhole with ⟨y, hy, hrest⟩ | ⟨z, hz, -⟩
  · refine ⟨y, hrest, ?_⟩
    rw [hy] at hs ha
    refine hs.of_append fun hnil => hlater ?_
    rwa [hnil, List.append_nil] at ha
  · exact absurd (by rw [hz]; exact List.mem_append_left z ha) hlater

/-! ### Numbers and dollar delimiters -/

/-- A byte that can stand in a number. -/
def isNumberByte (a : UInt8) : Bool :=
  Text.isDigit a || a = 0x2E || a = 0x65 || a = 0x45 || a = 0x2B || a = 0x2D

theorem isNumberByte_of_mem_digits {a : UInt8} (h : a ∈ (Cut.span Text.isDigit s).taken) :
    isNumberByte a = true := by
  simp [isNumberByte, mem_span a h]

theorem isNumberByte_of_mem_fraction {afterDigits : Bool} :
    ∀ a ∈ (fraction afterDigits s).taken, isNumberByte a = true := by
  intro a ha
  unfold fraction at ha
  split at ha
  · split at ha
    · rw [Cut.taken_prepend, List.mem_append, List.mem_singleton] at ha
      rcases ha with rfl | ha
      · decide
      · exact isNumberByte_of_mem_digits ha
    · cases ha
  · cases ha

theorem isNumberByte_of_mem_sign : ∀ a ∈ (sign s).taken, isNumberByte a = true := by
  intro a ha
  unfold sign at ha
  split at ha
  · rw [List.mem_singleton.1 ha]
    decide
  · rw [List.mem_singleton.1 ha]
    decide
  · cases ha

theorem isNumberByte_of_mem_exponent : ∀ a ∈ (exponent s).taken, isNumberByte a = true := by
  intro a ha
  unfold exponent at ha
  split at ha
  · cases ha
  · split at ha
    · rename_i e t hexp
      rw [Cut.taken_prepend, List.cons_append, List.mem_cons, List.mem_append] at ha
      rcases ha with rfl | ha | ha
      · rw [Bool.and_eq_true, Bool.or_eq_true, decide_eq_true_iff, decide_eq_true_iff] at hexp
        rcases hexp.1 with rfl | rfl <;> decide
      · exact isNumberByte_of_mem_sign a ha
      · exact isNumberByte_of_mem_digits ha
    · cases ha

/-- A number has digits, points, signs and the letter of an exponent, and no other byte. -/
theorem isNumberByte_of_mem_number : ∀ a ∈ (number s).taken, isNumberByte a = true := by
  intro a ha
  simp only [number, List.mem_append] at ha
  rcases ha with (ha | ha) | ha
  · exact isNumberByte_of_mem_digits ha
  · exact isNumberByte_of_mem_fraction a ha
  · exact isNumberByte_of_mem_exponent a ha

/-- A number is over before the last byte, so it does not matter what comes then. -/
theorem number_extend (hs : EndsInBoundary s) :
    number (s ++ b) = ⟨(number s).taken, (number s).rest ++ b⟩ := by
  obtain ⟨y, hrest, hy⟩ := Cut.exists_rest_eq_append hs (by decide) (whole_number (s ++ b))
    isNumberByte_of_mem_number
  -- what is left in front of the boundary ends in it, so it is no point
  have hdot : ¬(y = [0x2E] ∧ b.head? = some 0x2E) := by
    rintro ⟨rfl, -⟩
    rcases hy with hy | hy <;> cases hy
  rw [number_truncate hrest hdot, ← hrest]

/-- A dollar delimiter has the bytes of a name only. -/
theorem isNameByte_of_mem_dollarDelimiter? (h : dollarDelimiter? s = some c) :
    ∀ a ∈ c.taken, isNameByte a = true := by
  unfold dollarDelimiter? at h
  split at h
  · dsimp only at h
    split at h
    · split at h
      · cases h
      · cases h
        intro a ha
        simp only [List.cons_append, List.mem_cons, List.mem_append, List.not_mem_nil,
          or_false] at ha
        rcases ha with rfl | ha | rfl
        · decide
        · have htag := mem_span a ha
          rw [isTagByte, Bool.and_eq_true] at htag
          exact htag.1
        · decide
    · cases h
  · cases h

/-- No dollar delimiter goes on behind the last byte. -/
theorem dollarDelimiter?_extend (hs : EndsInBoundary s) (h : dollarDelimiter? s = none) :
    dollarDelimiter? (s ++ b) = none := by
  cases hd : dollarDelimiter? (s ++ b) with
  | none => rfl
  | some d =>
    have hwhole := whole_dollarDelimiter? hd
    obtain ⟨y, hrest, -⟩ := Cut.exists_rest_eq_append hs (by decide) hwhole
      (isNameByte_of_mem_dollarDelimiter? hd)
    have hsplit := Cut.taken_append_eq hwhole hrest
    -- the delimiter would be over in `s` already, and there is none
    rw [← hsplit, dollarDelimiter?_append hd] at h
    cases h

/-! ### One token -/

/-- The bytes of one class stay the same if a byte of another class follows them. -/
theorem span_extend {p : UInt8 → Bool} (h : (Cut.span p s).rest ≠ []) :
    Cut.span p (s ++ b) = ⟨(Cut.span p s).taken, (Cut.span p s).rest ++ b⟩ := by
  have hhead := head?_rest_span p s
  rw [← head?_append_of_ne_nil h (r := b)] at hhead
  have hspan := span_append (s := (Cut.span p s).taken) mem_span hhead
  rwa [← List.append_assoc, ← Cut.whole, Cut.whole_span] at hspan

/-- A quotation ends in the same place if something follows it, as that is no further quotation
mark. -/
theorem closeDoubled?_extend {q : UInt8} (h : closeDoubled? q s = some c) (hrest : c.rest ≠ []) :
    closeDoubled? q (s ++ b) = some ⟨c.taken, c.rest ++ b⟩ := by
  have hhead := head?_rest_closeDoubled? h
  rw [← head?_append_of_ne_nil hrest (r := b)] at hhead
  rw [← whole_closeDoubled? h, Cut.whole, List.append_assoc]
  exact closeDoubled?_append h hhead

theorem closeEscaped?_extend (h : closeEscaped? s = some c) (hrest : c.rest ≠ []) :
    closeEscaped? (s ++ b) = some ⟨c.taken, c.rest ++ b⟩ := by
  have hhead := head?_rest_closeEscaped? h
  rw [← head?_append_of_ne_nil hrest (r := b)] at hhead
  rw [← whole_closeEscaped? h, Cut.whole, List.append_assoc]
  exact closeEscaped?_append h hhead

/-- The reading with more text after it. -/
def Reading.extend (r : Reading) (b : Text) : Reading := { r with rest := r.rest ++ b }

/-- A string that leaves something has its end. -/
theorem readString_extend {opening whole whole' : Text} {body? body?' : Option Cut}
    (h : (readString opening body? whole mode).rest ≠ [])
    (hbody : ∀ c, body? = some c → c.rest ≠ [] → body?' = some ⟨c.taken, c.rest ++ b⟩) :
    readString opening body?' whole' mode = (readString opening body? whole mode).extend b := by
  cases hc : body? with
  | none =>
    rw [hc] at h
    exact absurd rfl h
  | some c =>
    rw [hc] at h
    rw [hbody c hc h]
    rfl

/-- A token that begins with a dollar sign stays the same if it leaves something. -/
theorem readDollar_extend (hs : EndsInBoundary s) (h : (readDollar s mode).rest ≠ []) :
    readDollar (s ++ b) mode = (readDollar s mode).extend b := by
  unfold readDollar at h ⊢
  cases hd : dollarDelimiter? s with
  | none =>
    rw [dollarDelimiter?_extend hs hd]
    obtain ⟨a, t, rfl⟩ := List.exists_cons_of_ne_nil hs.ne_nil
    rfl
  | some d =>
    rw [hd] at h
    have hdelimiter : dollarDelimiter? (s ++ b) = some ⟨d.taken, d.rest ++ b⟩ := by
      rw [← whole_dollarDelimiter? hd, Cut.whole, List.append_assoc]
      exact dollarDelimiter?_append hd
    rw [hdelimiter]
    refine readString_extend h fun c hc _ => ?_
    dsimp only
    rw [← whole_closeDelimiter? hc, Cut.whole, List.append_assoc]
    exact closeDelimiter?_append (taken_dollarDelimiter? hd) hc

/-- A mark stays the same if the source goes on. -/
theorem readMark_extend (hs : EndsInBoundary s)
    (h : (readMark mode s).rest = [] → (readMark mode s).kind.isBoundary = true) :
    readMark mode (s ++ b) = (readMark mode s).extend b := by
  -- One case for each mark. Where the token is not a boundary, the hypothesis says that it leaves
  -- something, so the bytes that decide its end are there already.
  unfold readMark at h
  split at h
  · rfl
  · rfl
  · -- a star and a slash: the mode decides, not the rest
    unfold readMark
    simp only [List.cons_append]
    split <;> rfl
  · -- a star alone stays alone, as the byte after it is known
    rename_i t ht
    have htail : t ≠ [] := fun hnil => by cases h hnil
    have hslash : t.head? ≠ some 0x2F := by
      intro hslash
      obtain ⟨t', rfl⟩ := List.head?_eq_some_iff.1 hslash
      exact ht t' rfl
    have hslash' : (t ++ b).head? ≠ some 0x2F := by
      rwa [head?_append_of_ne_nil htail]
    rw [List.cons_append, readMark_star (.inl hslash'), readMark_star (.inl hslash)]
    rfl
  · split at h
    · -- the opening of an escape has its third byte
      rename_i t hopen
      obtain ⟨t', rfl⟩ := List.head?_eq_some_iff.1 hopen.2
      simp [readMark, Reading.extend, hopen.1]
    -- a comment that never ends is not a boundary
    · cases h rfl
  · rfl
  · rename_i t
    -- a string in apostrophes, and no string is a boundary
    have hrest : (readString [0x27] (closeDoubled? 0x27 t) (0x27 :: t) mode).rest ≠ [] := by
      intro hnil
      have hkind := h hnil
      unfold readString at hkind
      split at hkind <;> cases hkind
    exact readString_extend hrest fun c hc => closeDoubled?_extend hc
  · rename_i t
    split at h
    · rename_i c hc
      -- a name in quotation marks
      have hrest : c.rest ≠ [] := fun hnil => by cases h hnil
      have hclose := closeDoubled?_extend (b := b) hc hrest
      simp [readMark, hc, hclose, Reading.ofCut, Cut.prepend, Reading.extend]
    · cases h rfl
  · rename_i t
    -- a dollar sign or a string that it opens
    have hrest : (readDollar (0x24 :: t) mode).rest ≠ [] := by
      intro hnil
      have hkind := h hnil
      unfold readDollar readString at hkind
      split at hkind
      · split at hkind <;> cases hkind
      · cases hkind
    exact readDollar_extend hs hrest
  · rename_i a t h1 h2 hstar h3 hslash hcolon h4 h5 h6
    -- any other byte is an error, and the byte after it does not make a pair with it
    have htail : t ≠ [] := fun hnil => by cases h hnil
    have ha : a ∉ [0x3B, 0x2E, 0x2A, 0x27, 0x22, 0x24] := by simp_all
    have hcomment : ¬(a = 0x2F ∧ t.head? = some 0x2A) := by
      rintro ⟨rfl, hhead⟩
      obtain ⟨t', rfl⟩ := List.head?_eq_some_iff.1 hhead
      exact hslash t' rfl rfl
    have hcast : ¬(a = 0x3A ∧ t.head? = some 0x3A) := by
      rintro ⟨rfl, hhead⟩
      obtain ⟨t', rfl⟩ := List.head?_eq_some_iff.1 hhead
      exact hcolon t' rfl rfl
    rw [List.cons_append, readMark_byte ha hcomment hcast, readMark_byte ha]
    · rfl
    · rwa [head?_append_of_ne_nil htail]
    · rwa [head?_append_of_ne_nil htail]
  · exact absurd rfl hs.ne_nil

/-- Whether an `E` string begins does not depend on what the source goes on with. -/
theorem startsEscapedString_extend {a : UInt8} (hs : EndsInBoundary (a :: s)) :
    startsEscapedString (a :: (s ++ b)) = startsEscapedString (a :: s) := by
  by_cases hnil : s = []
  · subst hnil
    -- the only byte is the last one, and no string begins with it
    have ha : a = 0x3B ∨ a = 0x0A := by simpa [EndsInBoundary] using hs
    unfold startsEscapedString
    split
    · rename_i heq
      obtain ⟨rfl, -⟩ := List.cons.inj heq
      rcases ha with rfl | rfl <;> rfl
    · rfl
  · exact startsEscapedString_append hnil

/-- A token inside a statement stays the same if the source goes on. -/
theorem readInside_extend (hs : EndsInBoundary s)
    (h : (readInside mode s).rest = [] → (readInside mode s).kind.isBoundary = true) :
    readInside mode (s ++ b) = (readInside mode s).extend b := by
  obtain ⟨a, s, rfl⟩ := List.exists_cons_of_ne_nil hs.ne_nil
  -- a point alone would be the last byte, which is a boundary
  have hnumber : startsNumber (a :: (s ++ b)) = startsNumber (a :: s) := by
    refine startsNumber_append (s := a :: s) (by simp) ?_
    intro hdot
    rw [hdot] at hs
    rcases hs with hs | hs <;> cases hs
  rw [List.cons_append]
  unfold readInside at h ⊢
  dsimp only at h ⊢
  cases hkind : punctuation? a with
  | some kind => rfl
  | none =>
    simp only [hkind] at h
    dsimp only
    rw [startsEscapedString_extend hs, hnumber]
    split at h
    · rename_i hstring
      rw [if_pos hstring, if_pos hstring]
      cases hc : closeEscaped? (s.drop 1) with
      | none =>
        rw [hc] at h
        -- an `E` string that never ends is not a boundary
        cases h rfl
      | some c =>
        rw [hc] at h
        have hrest : c.rest ≠ [] := fun hnil => by cases h hnil
        have hdrop : (s ++ b).drop 1 = s.drop 1 ++ b := by
          rw [eq_cons_of_startsEscapedString hstring]
          rfl
        rw [hdrop, closeEscaped?_extend hc hrest]
        rfl
    · rename_i hstring
      rw [if_neg hstring, if_neg hstring]
      split at h
      · rename_i hstarts
        have hextend : number (a :: (s ++ b)) = _ := number_extend hs
        rw [if_pos hstarts, if_pos hstarts, hextend]
        rfl
      · rename_i hstarts
        rw [if_neg hstarts, if_neg hstarts]
        split at h
        · rename_i hname
          -- a word is not a boundary, so it leaves something
          have hrest : (Cut.span isNameByte (a :: s)).rest ≠ [] := by
            intro hnil
            have hword := h hnil
            unfold wordKind at hword
            dsimp only [Reading.ofCut] at hword
            split at hword <;> cases hword
          have hspan : Cut.span isNameByte (a :: (s ++ b)) = _ := span_extend hrest
          rw [if_pos hname, if_pos hname, hspan]
          rfl
        · rename_i hname
          rw [if_neg hname, if_neg hname]
          exact readMark_extend hs h

/-- A token between statements stays the same if the source goes on. -/
theorem readBetween?_extend {r : Reading} (hr : readBetween? s = some r) (hs : s ≠ [])
    (h : r.rest = [] → r.kind.isBoundary = true) : readBetween? (s ++ b) = some (r.extend b) := by
  unfold readBetween? at hr
  split at hr
  · exact absurd rfl hs
  · cases hr
    rfl
  · rename_i t
    cases hr
    -- a line comment is not a boundary, so a line break follows it
    have hrest : (restOfLine t).rest ≠ [] := fun hnil => by cases h hnil
    have hspan : restOfLine (t ++ b) = _ := span_extend hrest
    show some (Reading.ofCut .comment ((restOfLine (t ++ b)).prepend _) .between) = _
    rw [hspan]
    rfl
  · split at hr
    · rename_i c hc
      cases hr
      have hclose := blockComment?_append (r := c.rest ++ b) hc
      rw [← List.append_assoc, ← Cut.whole, whole_blockComment? hc] at hclose
      exact readBetween?_of_blockComment? hclose
    · cases hr
      cases h rfl
  · cases hr

/-- If neither a comment nor a line break is in front, then none is if the source goes on: the two
bytes that open a comment are there already. -/
theorem readBetween?_extend_none (hs : EndsInBoundary s) (h : readBetween? s = none) :
    readBetween? (s ++ b) = none := by
  obtain ⟨a, t, rfl⟩ := List.exists_cons_of_ne_nil hs.ne_nil
  rw [List.cons_append]
  unfold readBetween?
  split
  · rename_i hnil
    cases hnil
  · rename_i heq
    obtain ⟨rfl, -⟩ := List.cons.inj heq
    cases h
  · rename_i heq
    obtain ⟨rfl, htail⟩ := List.cons.inj heq
    obtain ⟨t', rfl⟩ := hs.exists_eq_cons (by decide) htail
    cases h
  · rename_i heq
    obtain ⟨rfl, htail⟩ := List.cons.inj heq
    obtain ⟨t', rfl⟩ := hs.exists_eq_cons (by decide) htail
    simp only [readBetween?] at h
    split at h <;> cases h
  · rfl

/-- A token stays the same if the source goes on. -/
theorem read_extend (hs : EndsInBoundary s)
    (h : (read mode s).rest = [] → (read mode s).kind.isBoundary = true) :
    read mode (s ++ b) = (read mode s).extend b := by
  cases mode with
  | inside | escape => exact readInside_extend hs h
  | between =>
    simp only [read] at h ⊢
    cases hr : readBetween? s with
    | some r =>
      rw [hr] at h
      rw [readBetween?_extend hr hs.ne_nil h]
      rfl
    | none =>
      rw [hr] at h
      rw [readBetween?_extend_none hs hr]
      exact readInside_extend hs h

/-! ### The gap before a token -/

/-- A comment that is over only if the source goes on is read as one that never ends. -/
theorem readInside_of_skippedComment?_extend {inEscape : Bool} (hs : EndsInBoundary s)
    (hmode : inEscape = true ↔ mode = .escape) (hnone : skippedComment? inEscape s = none)
    (hsome : skippedComment? inEscape (s ++ b) = some c) :
    readInside mode s = .unclosed .comment s mode := by
  obtain ⟨a, s, rfl⟩ := List.exists_cons_of_ne_nil hs.ne_nil
  -- a line comment would have been found, so it is a block comment, which only the rest closes
  rcases Option.or_eq_some_iff.1 hsome with hline | ⟨-, hblock⟩
  · unfold lineComment? at hline
    split at hline
    · rename_i heq
      obtain ⟨rfl, htail⟩ := List.cons.inj heq
      obtain ⟨t, rfl⟩ := hs.exists_eq_cons (by decide) htail
      cases hnone
    · cases hline
  · split at hblock
    · cases hblock
    · rename_i hopen
      unfold blockComment? at hblock
      split at hblock
      · rename_i heq
        obtain ⟨rfl, htail⟩ := List.cons.inj heq
        obtain ⟨t, rfl⟩ := hs.exists_eq_cons (by decide) htail
        have ht : t ≠ [] := ((hs.tail (by decide)).tail (by decide)).ne_nil
        refine readInside_comment fun hescape => hopen ?_
        rw [Bool.and_eq_true, Bool.not_eq_true', ← Bool.not_eq_true, hmode]
        refine ⟨?_, hescape.1⟩
        show startsEscape (0x2F :: 0x2A :: (t ++ b)) = true
        rw [startsEscape_comment, head?_append_of_ne_nil ht]
        exact hescape.2
      · cases hblock

/-- The gap inside a statement stays the same if the source goes on. -/
theorem spacing_extend {inEscape : Bool} (hs : EndsInBoundary s)
    (hmode : inEscape = true ↔ mode = .escape) (hrest : (spacing inEscape s).rest ≠ [])
    (h : (readInside mode (spacing inEscape s).rest).rest = [] →
      (readInside mode (spacing inEscape s).rest).kind.isBoundary = true) :
    spacing inEscape (s ++ b) = ⟨(spacing inEscape s).taken, (spacing inEscape s).rest ++ b⟩ := by
  have hwhole := whole_spacing inEscape s
  rw [Cut.whole] at hwhole
  have hends : EndsInBoundary (spacing inEscape s).rest := by
    rw [← hwhole] at hs
    exact hs.of_append hrest
  obtain ⟨hspace, hcomment⟩ := rest_spacing inEscape s
  rw [← head?_append_of_ne_nil hrest (r := b)] at hspace
  -- a comment closed by the rest would be the next token, and not a boundary
  have hcomment' : skippedComment? inEscape ((spacing inEscape s).rest ++ b) = none := by
    cases hsome : skippedComment? inEscape ((spacing inEscape s).rest ++ b) with
    | none => rfl
    | some c =>
      rw [readInside_of_skippedComment?_extend hends hmode hcomment hsome] at h
      cases h rfl
  have happend := spacing_append hrest hspace hcomment'
  rwa [← List.append_assoc, hwhole] at happend

/-- The gap before a token stays the same if the source goes on. -/
theorem skip_extend (hs : EndsInBoundary s) (hrest : (skip mode s).rest ≠ [])
    (h : (read mode (skip mode s).rest).rest = [] →
      (read mode (skip mode s).rest).kind.isBoundary = true) :
    skip mode (s ++ b) = ⟨(skip mode s).taken, (skip mode s).rest ++ b⟩ := by
  cases mode with
  | between => exact span_extend hrest
  | inside => exact spacing_extend hs (by decide) hrest h
  | escape => exact spacing_extend hs (by decide) hrest h

/-- The next token stays the same if the source goes on, unless it reaches up to its end without
being a semicolon or a line break. -/
theorem next_extend {l : Lexer} (hl : EndsInBoundary l.rest) (hne : l.next.1.kind ≠ .eof)
    (h : l.next.2.rest = [] → l.next.1.kind.isBoundary = true) :
    { l with rest := l.rest ++ b }.next =
      (l.next.1, { l.next.2 with rest := l.next.2.rest ++ b }) := by
  have hrest := skip_rest_ne_nil hne
  have hends : EndsInBoundary (skip l.mode l.rest).rest := by
    rw [← whole_skip l.mode l.rest, Cut.whole] at hl
    exact hl.of_append hrest
  simp only [next, skip_extend hl hrest h, read_extend hends h]
  rfl

/-! ### All tokens -/

section Reads

variable {l l' : Lexer} {w : List Token}

/-- Where nothing is left, no token is read. -/
theorem Reads.eq_nil_of_rest_eq_nil (h : Reads l w l') (hl : l.rest = []) : w = [] := by
  obtain ⟨p, hp, hw⟩ := h.exists_rest_eq
  by_cases hnil : w = []
  · exact hnil
  · rw [hl] at hp
    exact absurd (List.append_eq_nil_iff.1 hp.symm).1 (hw hnil)

/-- The tokens of a source that ends with a semicolon or a line break are read in the same way if
the source goes on. -/
theorem Reads.extend (h : Reads l w l') (hl : EndsInBoundary l.rest) (hl' : l'.rest = [])
    (hw : ∀ t ∈ w.getLast?, t.kind.isBoundary = true) (b : Text) :
    Reads { l with rest := l.rest ++ b } w { l' with rest := b } := by
  induction h with
  | nil => exact absurd hl' hl.ne_nil
  | @cons l l' w hne others ih =>
    have hnext := next_extend (b := b) hl hne fun hnil => by
      rw [others.eq_nil_of_rest_eq_nil hnil] at hw
      exact hw l.next.1 rfl
    refine .of_next hnext hne ?_
    by_cases hnil : l.next.2.rest = []
    · -- the token was the last one
      obtain rfl := others.eq_nil_of_rest_eq_nil hnil
      cases others
      rw [hnil, List.nil_append]
      exact .nil
    · refine ih ?_ hl' fun t ht => hw t ?_
      · rw [← next_whole l] at hl
        exact hl.of_append hnil
      · rw [List.getLast?_cons, Option.mem_def.1 ht]
        rfl

/-- The place after some tokens is that after their bytes, as long as something is left to be
read. -/
theorem Reads.here_eq (h : Reads l w l') (hl' : l'.rest ≠ []) :
    ∃ p, l.rest = p ++ l'.rest ∧ l'.here = l.here.after p := by
  induction h with
  | nil => exact ⟨[], rfl, rfl⟩
  | @cons l l' w hne others ih =>
    obtain ⟨p, hp, hhere⟩ := ih hl'
    refine ⟨(skip l.mode l.rest).taken ++ l.next.1.text ++ p, ?_, ?_⟩
    · rw [List.append_assoc, ← hp, next_whole]
    · have hrest : l.next.2.rest ≠ [] := by
        rw [hp]
        simp [hl']
      -- the reader steps past the end of the source only if nothing is left
      have hoverrun : (read l.mode (skip l.mode l.rest).rest).overrun = false := by
        rw [← Bool.not_eq_true]
        exact fun hover => hrest ((sane_read (skip_rest_ne_nil hne)).overrun hover)
      have hnext : l.next.2.here =
          (l.here.after (skip l.mode l.rest).taken).after l.next.1.text := by
        show (if _ then overrun _ else _ : Location) = _
        rw [hoverrun]
        rfl
      rw [hhere, hnext, Location.after_append, Location.after_append]

end Reads

/-! ### The other source -/

section Shift

variable {l : Lexer}

/-- The lines of a lexer only grow. -/
theorem line_le_next (l : Lexer) :
    l.here.line ≤ l.next.1.location.line ∧ l.next.1.location.line ≤ l.next.2.here.line := by
  constructor
  · show _ ≤ (l.here.after _).line
    rw [Location.after_line]
    omega
  · have hafter := Location.after_line l.next.1.location l.next.1.text
    have hnext : l.next.2.here.line = (l.next.1.location.after l.next.1.text).line := by
      show (if _ then overrun _ else _ : Location).line = _
      split <;> rfl
    omega

theorem overrun_shift (s : Text) (l : Location) : overrun (l.shift s) = (overrun l).shift s := by
  have hoffset : l.offset + s.length + 1 = l.offset + 1 + s.length := by omega
  show Location.mk _ _ (l.offset + s.length + 1) = Location.mk _ _ (l.offset + 1 + s.length)
  rw [hoffset]
  rfl

/-- A lexer does not look at the place where it is. -/
theorem next_shift (s : Text) (hl : 1 ≤ l.here.line) :
    { l with here := l.here.shift s }.next =
      (l.next.1.relocate (·.shift s), { l.next.2 with here := l.next.2.here.shift s }) := by
  have hstart := Location.after_shift (s := s) (skip l.mode l.rest).taken hl
  have hstop := Location.after_shift (s := s) l.next.1.text (Nat.le_trans hl (line_le_next l).1)
  simp only [next] at hstop
  simp only [next, hstart, hstop, overrun_shift]
  split <;> rfl

/-- The tokens of a source that stands behind another one are its own, moved on. -/
theorem toEnd_shift (s : Text) (hl : 1 ≤ l.here.line) :
    { l with here := l.here.shift s }.toEnd.1 = l.toEnd.1.relocate (·.shift s) := by
  fun_induction Lexer.toEnd l with
  | case1 l step heof =>
    have hnext := next_shift s hl
    rw [Lexer.toEnd, hnext]
    dsimp only
    rw [if_pos (by exact heof)]
    rfl
  | case2 l step hne ts last heq ih =>
    have hnext := next_shift s hl
    have hlater := ih (Nat.le_trans hl (Nat.le_trans (line_le_next l).1 (line_le_next l).2))
    rw [heq] at hlater
    rw [Lexer.toEnd, hnext]
    dsimp only
    rw [if_neg (by exact hne), hlater]
    rfl

end Shift

/-- Whether the last token of a source is a semicolon or a line break and ends where the source
does. -/
def endsAtBoundary (source : Text) : Bool :=
  (tokens source).pending.getLast?.any fun t =>
    t.kind.isBoundary && spanEnd source t = source.length

/-- A run can be continued by one more token. -/
theorem Reads.concat {l l' : Lexer} {w : List Token} (h : Reads l w l')
    (hne : l'.next.1.kind ≠ .eof) : Reads l (w ++ [l'.next.1]) l'.next.2 := by
  induction h with
  | nil => exact .cons hne .nil
  | cons hne' _ ih => exact .cons hne' (ih hne)

theorem isBoundary_iff {kind : Kind} :
    kind.isBoundary = true ↔ kind = .semicolon ∨ kind = .newline := by
  simp [Kind.isBoundary]

/-- Such a source is read to its end, and its last byte is that of its last token. -/
theorem reads_of_endsAtBoundary {source : Text} (h : endsAtBoundary source = true) :
    ∃ l, Reads (ofText source) (tokens source).pending l ∧ l.rest = [] ∧ EndsInBoundary source ∧
      ∀ t ∈ (tokens source).pending.getLast?, t.kind.isBoundary = true := by
  unfold endsAtBoundary at h
  cases hlast : (tokens source).pending.getLast? with
  | none =>
    rw [hlast] at h
    cases h
  | some t =>
    rw [hlast, Option.any_some, Bool.and_eq_true, decide_eq_true_iff] at h
    obtain ⟨hkind, hspan⟩ := h
    obtain ⟨w, hw⟩ := List.getLast?_eq_some_iff.1 hlast
    obtain ⟨l, hreads, hl⟩ := Reads.of_toEnd hw
    obtain ⟨rfl, hne, -⟩ := next_of_toEnd (congrArg Tokens.pending hl)
    obtain ⟨before, hreached⟩ := hreads.reached (reached_ofText source)
    have hsource := (hreached.next hne).source_eq
    have hsane := @sane_read l.mode _ (skip_rest_ne_nil hne)
    -- the place behind the token is the end of the source
    have hnil : l.next.2.rest = [] := by
      have hend := spanEnd_of_sane hsane rfl rfl (hreached.next_offset hne)
        (hsource.trans (List.append_assoc _ _ _))
      rw [hspan, ← List.length_append] at hend
      have hlength := congrArg List.length hsource
      rw [List.length_append] at hlength
      refine List.length_eq_zero_iff.1 ?_
      have htext : (read l.mode (skip l.mode l.rest).rest).text = l.next.1.text := rfl
      rw [htext] at hend
      omega
    refine ⟨l.next.2, ?_, hnil, ?_, ?_⟩
    · rw [hw]
      exact hreads.concat hne
    · rw [hnil, List.append_nil] at hsource
      rcases isBoundary_iff.1 hkind with hsemi | hbreak
      · have htext : l.next.1.text = [0x3B] := hsane.semicolon hsemi
        rw [hsource, htext]
        exact .inl List.getLast?_concat
      · have htext : l.next.1.text = [0x0A] := hsane.newline hbreak
        rw [hsource, htext]
        exact .inr List.getLast?_concat
    · intro t ht
      rw [← Option.some.inj ht]
      exact hkind

/-- The tokens of two sources one after the other, where the first ends with a semicolon or a line
break: those of the first, and those of the second moved on. -/
theorem tokens_append {a : Text} (ha : endsAtBoundary a = true) (b : Text) :
    tokens (a ++ b) = ((tokens b).relocate (·.shift a)).prepend (tokens a).pending := by
  obtain ⟨l, hreads, hrest, hends, hlast⟩ := reads_of_endsAtBoundary ha
  have hmode : l.mode = .between := by
    refine hreads.between (fun _ => rfl) fun t ht => ?_
    rcases isBoundary_iff.1 (hlast t ht) with h | h <;> rw [h] <;> rfl
  have hhere : l.here = Location.shift a {} := by
    -- with a blank after the source something is left, so the place is that after its bytes
    obtain ⟨p, hp, hhere⟩ := (hreads.extend hends hrest hlast [0x20]).here_eq (by simp)
    obtain rfl : a = p := List.append_cancel_right hp
    rw [← Location.after_eq_shift]
    exact hhere
  have hextend := hreads.extend hends hrest hlast b
  -- the lexer that goes on is that of the second source, moved behind the first
  have hother : { l with rest := b } = { ofText b with here := (ofText b).here.shift a } := by
    rw [hmode, hhere]
    rfl
  have htokens := hextend.toEnd
  rw [hother, toEnd_shift a (Nat.le_refl 1)] at htokens
  exact htokens

end Lexer

end SqlStubs
