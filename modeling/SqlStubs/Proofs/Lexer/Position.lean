import SqlStubs.Proofs.Lexer.Concatenation
import SqlStubs.Proofs.Lexer.Modes

/-!
# The places of tokens

`take_location`: the line and the column of every token, the end included, are those of its offset.
`take_offset`: a token begins at a byte of the source, and the end has the place behind the last
byte, with one exception.  In an `E` string that never ends, a backslash is stepped over together
with the byte after it, so if the source ends in a backslash that escapes nothing, then the place of
the end is one byte too far.  The lines and columns are not moved by that step.

The lexer is `Placed` behind the bytes that it has read, or one byte past the end of the source.
Each token moves it on behind the gap and its own bytes, and whether it then steps past the end is
seen from the token (`overrun_read`).
-/

namespace SqlStubs

/-! ### Backslashes at the end -/

/-- Whether the number of backslashes at the end of a text is odd, so that the last of them is not
escaped itself. -/
def Text.endsInBackslash (s : Text) : Bool := (s.rtakeWhile (· = 0x5C)).length % 2 = 1

/-- Whether a token is an `E` string that never ends, and its last backslash escapes nothing. -/
def Token.escapesNothing (t : Token) : Bool :=
  t.kind = .illegal (.unclosed .string) && Lexer.startsEscapedString t.text &&
    Text.endsInBackslash t.text

/-- Whether a source ends in a backslash that escapes nothing. -/
def Lexer.endsInEscape (source : Text) : Bool := (tokens source).pending.any (·.escapesNothing)

namespace Text

/-- Each backslash at the end escapes the next one or is escaped by it. -/
theorem endsInBackslash_concat (s : Text) (b : UInt8) :
    endsInBackslash (s ++ [b]) = (b = 0x5C && !endsInBackslash s) := by
  unfold endsInBackslash
  rw [List.rtakeWhile_concat]
  by_cases hb : b = 0x5C
  · simp only [hb, decide_true, if_true, Bool.true_and, List.length_append, List.length_singleton]
    rw [← decide_not, decide_eq_decide]
    omega
  · simp [hb]

/-- A first byte that is no backslash has no part in those at the end. -/
theorem endsInBackslash_cons {b : UInt8} (hb : b ≠ 0x5C) (s : Text) :
    endsInBackslash (b :: s) = endsInBackslash s := by
  -- from the back, as `endsInBackslash_concat` adds bytes there
  induction s using List.reverseRecOn with
  | nil =>
    show endsInBackslash ([] ++ [b]) = false
    rw [endsInBackslash_concat]
    simp [hb]
  | append_singleton s c ih =>
    rw [← List.cons_append, endsInBackslash_concat, endsInBackslash_concat, ih]

/-- A backslash at the front escapes the byte after it, whatever that is. -/
theorem endsInBackslash_cons_cons (b : UInt8) (s : Text) :
    endsInBackslash (0x5C :: b :: s) = endsInBackslash s := by
  induction s using List.reverseRecOn with
  | nil =>
    show endsInBackslash ([0x5C] ++ [b]) = false
    rw [endsInBackslash_concat]
    simp [show endsInBackslash [0x5C] = true from rfl]
  | append_singleton s c ih =>
    rw [← List.cons_append, ← List.cons_append, endsInBackslash_concat, endsInBackslash_concat, ih]

end Text

namespace Lexer

/-- Where an unclosed string steps past the end is seen from the backslashes at its end. -/
theorem escapesPastEnd_eq (s : Text) : escapesPastEnd s = Text.endsInBackslash s := by
  fun_induction escapesPastEnd s with
  | case1 => rfl
  | case2 => rfl
  | case3 b s ih => rw [Text.endsInBackslash_cons_cons, ih]
  | case4 b s hlast hslash ih =>
    rw [Text.endsInBackslash_cons (ne_backslash hlast hslash), ih]

/-! ### Stepping past the end -/

/-- Only a token that is an error can be a string that never ends. -/
theorem escapesNothing_of_isPlain {t : Token} (h : isPlain t.kind = true) :
    t.escapesNothing = false := by
  have hkind : t.kind ≠ .illegal (.unclosed .string) := by
    intro hkind
    rw [hkind] at h
    cases h
  simp [Token.escapesNothing, hkind]

/-- A token that escapes nothing begins with the letter of an `E` string. -/
theorem escapesNothing_of_head? {t : Token} {b : UInt8} (h : t.text.head? = some b)
    (hb : isNameStart b = false) : t.escapesNothing = false := by
  obtain ⟨s, hs⟩ := List.head?_eq_some_iff.1 h
  simp [Token.escapesNothing, hs, startsEscapedString_eq_false hb]

theorem overrun_readString (opening : Text) (body? : Option Cut) (whole : Text) (mode : Mode) :
    (readString opening body? whole mode).overrun = false := by
  cases body? <;> rfl

theorem overrun_readDollar (s : Text) (mode : Mode) : (readDollar s mode).overrun = false := by
  unfold readDollar
  split
  · exact overrun_readString ..
  · rfl

/-- None of the tokens that are read by their mark is an `E` string, so none of them steps past the
end. -/
theorem overrun_readMark (mode : Mode) (s : Text) : (readMark mode s).overrun = false := by
  unfold readMark
  split
  · rfl
  · rfl
  · split <;> rfl
  · rfl
  · split <;> rfl
  · rfl
  · exact overrun_readString ..
  · split <;> rfl
  · exact overrun_readDollar ..
  · rfl
  · rfl

/-- In a string without end that begins with `E`, the reader steps past the end exactly if the last
backslash escapes nothing. -/
theorem overrun_readEscaped {b : UInt8} {s : Text} (hb : b = 0x45 ∨ b = 0x65) (mode : Mode)
    (here : Location) :
    ((closeEscaped? s).isNone && escapesPastEnd s) =
      Token.escapesNothing
        ⟨(readString [b, 0x27] (closeEscaped? s) (b :: 0x27 :: s) mode).kind,
          (readString [b, 0x27] (closeEscaped? s) (b :: 0x27 :: s) mode).text, here⟩ := by
  cases hclose : closeEscaped? s with
  | some c => exact (escapesNothing_of_isPlain rfl).symm
  | none =>
    have hslash : b ≠ 0x5C := by rcases hb with rfl | rfl <;> decide
    have hstarts : startsEscapedString (b :: 0x27 :: s) = true := by
      simpa [startsEscapedString] using hb
    show escapesPastEnd s = (true && startsEscapedString (b :: 0x27 :: s) &&
      Text.endsInBackslash (b :: 0x27 :: s))
    rw [hstarts, Text.endsInBackslash_cons hslash, Text.endsInBackslash_cons (by decide),
      escapesPastEnd_eq]
    rfl

/-- Inside a statement, the reader steps past the end exactly in an `E` string whose last backslash
escapes nothing. -/
theorem overrun_readInside (mode : Mode) (s : Text) (here : Location) :
    (readInside mode s).overrun =
      Token.escapesNothing ⟨(readInside mode s).kind, (readInside mode s).text, here⟩ := by
  unfold readInside
  split
  · rfl
  · rename_i b rest
    split
    · rename_i kind hkind
      exact (escapesNothing_of_isPlain (isPlain_punctuation? hkind)).symm
    · split
      · -- an `E` string: the apostrophe is the second byte, so the opening is known
        rename_i hstarts
        obtain ⟨s, hs⟩ : ∃ s, rest = 0x27 :: s := ⟨_, eq_cons_of_startsEscapedString hstarts⟩
        rw [hs] at hstarts ⊢
        exact overrun_readEscaped (by simpa [startsEscapedString] using hstarts) mode here
      · split
        · exact (escapesNothing_of_isPlain (isPlain_numberKind _)).symm
        · split
          · exact (escapesNothing_of_isPlain (isPlain_wordKind _)).symm
          · -- no other token begins with an `E`
            rename_i hname
            have hhead : (readMark mode (b :: rest)).text.head? = some b := by
              have hwhole := whole_readMark mode (b :: rest)
              have htext : (readMark mode (b :: rest)).text ≠ [] := text_readMark (by simp)
              rw [← head?_append_of_ne_nil htext, hwhole]
              rfl
            rw [overrun_readMark]
            exact (escapesNothing_of_head? hhead (by simpa using hname)).symm

/-- The reader steps past the end exactly in an `E` string whose last backslash escapes nothing. -/
theorem overrun_read (mode : Mode) (s : Text) (here : Location) :
    (read mode s).overrun =
      Token.escapesNothing ⟨(read mode s).kind, (read mode s).text, here⟩ := by
  cases mode with
  | inside | escape => exact overrun_readInside ..
  | between =>
    show ((readBetween? s).getD _).overrun =
      Token.escapesNothing ⟨((readBetween? s).getD _).kind, ((readBetween? s).getD _).text, here⟩
    cases hr : readBetween? s with
    | none => exact overrun_readInside ..
    | some r =>
      unfold readBetween? at hr
      split at hr
      · cases hr; rfl
      · cases hr; rfl
      · cases hr; rfl
      · split at hr <;> cases hr <;> rfl
      · cases hr

/-! ### The place of a lexer -/

/-- The place behind the bytes of `s`, or one byte further. -/
def placeAfter (past : Bool) (s : Text) : Location :=
  if past then overrun (.after {} s) else .after {} s

/-- The step past the end changes neither the line nor the column. -/
theorem placeAfter_line (past : Bool) (s : Text) :
    (placeAfter past s).line = 1 + Text.newlines s := by
  cases past <;> exact Location.after_line {} s

theorem placeAfter_column (past : Bool) (s : Text) :
    (placeAfter past s).column = 1 + (s.rtakeWhile (· ≠ 0x0A)).length := by
  cases past <;> exact Location.after_column s

/-- The step past the end is seen in the offset alone. -/
theorem placeAfter_offset (past : Bool) (s : Text) :
    (placeAfter past s).offset = s.length + if past then 1 else 0 := by
  have hoffset : (Location.after {} s).offset = s.length := by
    rw [Location.after_offset, Nat.zero_add]
  cases past with
  | false => exact hoffset
  | true => exact congrArg (· + 1) hoffset

/-- The lexer has read the part `before` of a source and stands behind it, or one byte further if
nothing is left. -/
structure Placed (source before : Text) (past : Bool) (l : Lexer) : Prop where
  source_eq : source = before ++ l.rest
  here_eq : l.here = placeAfter past before
  rest_eq_nil : past = true → l.rest = []

theorem placed_ofText (source : Text) : Placed source [] false (ofText source) :=
  ⟨rfl, rfl, nofun⟩

section Placed

variable {source before : Text} {past : Bool} {l l' : Lexer} {w : List Token}

/-- The source is what has been read, the gap before the next token, and the rest. -/
theorem Placed.source_eq_gap (h : Placed source before past l) :
    source = before ++ (skip l.mode l.rest).taken ++ (skip l.mode l.rest).rest := by
  have hgap := whole_skip l.mode l.rest
  rw [Cut.whole] at hgap
  rw [List.append_assoc, hgap, h.source_eq]

/-- Where a token is read, something is left. -/
theorem Placed.past_eq_false (h : Placed source before past l) (hne : l.next.1.kind ≠ .eof) :
    past = false := by
  rw [← Bool.not_eq_true]
  intro hpast
  refine hne ?_
  rw [next_of_rest_eq_nil (h.rest_eq_nil hpast)]

/-- A token begins behind the gap before it. -/
theorem Placed.next_location (h : Placed source before past l) :
    l.next.1.location = placeAfter past (before ++ (skip l.mode l.rest).taken) := by
  show l.here.after (skip l.mode l.rest).taken = _
  cases past with
  | false =>
    rw [h.here_eq]
    exact (Location.after_append {} before _).symm
  | true =>
    have hgap := whole_skip l.mode l.rest
    rw [Cut.whole, h.rest_eq_nil rfl, List.append_eq_nil_iff] at hgap
    -- nothing is left past the end, so the gap is empty
    rw [h.rest_eq_nil rfl, hgap.1, List.append_nil, h.here_eq]
    rfl

/-- The offset of a token tells the bytes before it. -/
theorem Placed.take_next_offset (h : Placed source before past l) :
    source.take (min l.next.1.location.offset source.length) =
      before ++ (skip l.mode l.rest).taken := by
  have hsource := h.source_eq_gap
  have hlength := congrArg List.length hsource
  rw [List.length_append] at hlength
  rw [h.next_location, placeAfter_offset]
  cases past with
  | false =>
    have hmin : min ((before ++ (skip l.mode l.rest).taken).length + 0) source.length =
        (before ++ (skip l.mode l.rest).taken).length := by
      omega
    show source.take (min (_ + 0) _) = _
    rw [hmin, hsource, List.take_left]
  | true =>
    -- one byte past the end, and the minimum with the length takes that byte back
    have hrest : (skip l.mode l.rest).rest = [] := by
      apply skip_rest_eq_nil
      rw [next_of_rest_eq_nil (h.rest_eq_nil rfl)]
    rw [hrest, List.append_nil] at hsource
    have hmin : min (source.length + 1) source.length = source.length := by omega
    show source.take (min (_ + 1) _) = _
    rw [← hsource, hmin, List.take_length]

/-- One token moves the lexer on behind the gap and the bytes of the token, and past the end if the
token escapes nothing. -/
theorem Placed.next (h : Placed source before past l) (hne : l.next.1.kind ≠ .eof) :
    Placed source (before ++ (skip l.mode l.rest).taken ++ l.next.1.text)
      l.next.1.escapesNothing l.next.2 where
  source_eq := by
    rw [h.source_eq, List.append_assoc, List.append_assoc, ← List.append_assoc _ _ l.next.2.rest,
      next_whole]
  here_eq := by
    have hlocation := h.next_location
    rw [h.past_eq_false hne] at hlocation
    have hstop : l.next.1.location.after l.next.1.text =
        .after {} (before ++ (skip l.mode l.rest).taken ++ l.next.1.text) := by
      rw [hlocation, Location.after_append {} (before ++ _)]
      rfl
    show (if (read _ _).overrun then overrun (l.next.1.location.after l.next.1.text)
      else l.next.1.location.after l.next.1.text) = _
    rw [overrun_read _ _ l.next.1.location, hstop]
    rfl
  rest_eq_nil := by
    intro hpast
    refine (sane_read (skip_rest_ne_nil hne)).overrun ?_
    rw [overrun_read _ _ l.next.1.location]
    exact hpast

/-- However many tokens are read, the lexer is placed behind some part of the source, and past the
end exactly if one of the tokens escapes nothing. -/
theorem Reads.placed (h : Reads l w l') (hl : Placed source before past l) :
    ∃ before', Placed source before' (past || w.any (·.escapesNothing)) l' := by
  induction h generalizing before past with
  | nil => exact ⟨before, by rwa [List.any_nil, Bool.or_false]⟩
  | cons hne _ ih =>
    -- no lexer past the end reads a further token, so only the last one can have stepped there
    rw [hl.past_eq_false hne, Bool.false_or, List.any_cons]
    exact ih (hl.next hne)

/-- What holds of the next token wherever the lexer comes to holds of every token that it gives,
however often it is asked. -/
theorem Reads.forall_take {P : Token → Prop} {start : Lexer} (h : Reads start w l)
    (hP : ∀ {w l}, Reads start w l → P l.next.1) (n : Nat) : ∀ t ∈ take n l, P t := by
  induction n generalizing w l with
  | zero => simp [take]
  | succ n ih =>
    show ∀ t ∈ l.next.1 :: take n l.next.2, P t
    rw [List.forall_mem_cons]
    refine ⟨hP h, ?_⟩
    by_cases heof : l.next.1.kind = .eof
    -- from the end on, every token is the end again
    · intro t ht
      rw [eq_of_mem_take_of_eof heof t ht]
      exact hP h
    · exact ih (h.concat heof)

end Placed

/-! ### The places of all tokens -/

/-- The line of a token is that of the bytes before it, and its column is counted from the last line
break before it.  This holds of the end too, and if its place is past the end of the source, then
its line and column are those of the end. -/
theorem take_location (source : Text) (n : Nat) : ∀ t ∈ take n (ofText source),
    let before := source.take (min t.location.offset source.length)
    t.location.line = 1 + Text.newlines before ∧
      t.location.column = 1 + (before.rtakeWhile (· ≠ 0x0A)).length := by
  refine Reads.nil.forall_take (fun {w l} hreads => ?_) n
  obtain ⟨before, hplaced⟩ := hreads.placed (placed_ofText source)
  dsimp only
  rw [hplaced.take_next_offset, hplaced.next_location]
  exact ⟨placeAfter_line .., placeAfter_column ..⟩

/-- The end of a source that breaks off behind a backslash has the line and the column that it would
have if its place were not past the end. -/
theorem take_location_past_end :
    let source := Text.utf8 "\nE'a\n\\"
    let t : Token := ⟨.eof, [], ⟨3, 2, 7⟩⟩
    t ∈ take 3 (ofText source) ∧ source.length = 6 ∧
      t.location.line = 1 + Text.newlines source ∧
      t.location.column = 1 + (source.rtakeWhile (· ≠ 0x0A)).length := by
  intro source t
  have hmem : t ∈ take 3 (ofText source) := by decide +kernel
  exact ⟨hmem, by decide +kernel, take_location source 3 t hmem⟩

/-- Every token but the end begins at a byte of the source.  The end has the place behind the last
byte, or one byte further if the source ends in a backslash that escapes nothing. -/
theorem take_offset (source : Text) (n : Nat) : ∀ t ∈ take n (ofText source),
    (t.kind ≠ .eof → t.location.offset < source.length) ∧
      (t.kind = .eof → t.location.offset =
        source.length + if endsInEscape source then 1 else 0) := by
  refine Reads.nil.forall_take (fun {w l} hreads => ?_) n
  obtain ⟨before, hplaced⟩ := hreads.placed (placed_ofText source)
  have hsource := hplaced.source_eq_gap
  rw [hplaced.next_location, placeAfter_offset]
  constructor
  · -- something is left behind the gap, and a token that is not the end begins there
    intro hne
    have hrest := List.length_pos_iff.2 (skip_rest_ne_nil hne)
    have hlength := congrArg List.length hsource
    rw [List.length_append] at hlength
    rw [hplaced.past_eq_false hne]
    show _ + 0 < _
    omega
  · intro heof
    rw [skip_rest_eq_nil heof, List.append_nil] at hsource
    -- at the end, the tokens that were read are all tokens of the source
    have htokens := congrArg Tokens.pending hreads.toEnd
    have hend : l.toEnd.1.pending = [] := by
      rw [Lexer.toEnd]
      simp only [if_pos heof]
    rw [hend, List.append_nil] at htokens
    rw [← hsource, endsInEscape, tokens, htokens, Bool.false_or]

/-- If all backslashes are paired, then the end of a string without end is that of the source. -/
theorem take_offset_paired_backslashes :
    let source := Text.utf8 "E'\\\\"
    let t : Token := ⟨.eof, [], ⟨1, 5, 4⟩⟩
    t ∈ take 2 (ofText source) ∧ t.location.offset = source.length := by
  intro source t
  have hmem : t ∈ take 2 (ofText source) := by decide +kernel
  have hends : endsInEscape source = false := by decide +kernel
  have hoffset := (take_offset source 2 t hmem).2 rfl
  rw [hends] at hoffset
  exact ⟨hmem, hoffset⟩

/-- After a backslash that escapes nothing, the place of the end is past the end of the source. -/
theorem take_offset_past_end :
    let source := Text.utf8 "E'\\"
    ¬∀ t ∈ take 2 (ofText source), t.location.offset ≤ source.length ∧
      (t.kind = .eof → t.location.offset = source.length) := by
  decide +kernel

end Lexer

end SqlStubs
