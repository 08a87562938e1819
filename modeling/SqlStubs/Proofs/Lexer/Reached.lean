import SqlStubs.Lexer

/-!
# How far a lexer has come

`Reached source before l`: the lexer `l` has read the part `before` of a source, and the rest is
still to be read.  `Reached.next` says what one more token does: the lexer then has read a gap and
the bytes of the token too.  The place is known from what was read, but for the place after a string
that is cut off behind a backslash, where the reader steps past the end of the source.
-/

namespace SqlStubs

/-- Whether the lexer is inside a statement after a token of this kind. -/
def Kind.leavesInside : Kind → Bool
  | .comment | .newline | .semicolon | .eof => false
  | _ => true

namespace Lexer

/-! ### What the kind of a token tells -/

/-- What the kind of a token tells of its bytes, of the text after it and of the mode. -/
structure Reading.Sane (r : Reading) : Prop where
  kind_ne_eof : r.kind ≠ .eof
  byte : r.kind = .illegal .byte → ∃ b, r.text = [b]
  unclosed : ∀ what, r.kind = .illegal (.unclosed what) → r.rest = []
  newline : r.kind = .newline → r.text = [0x0A]
  semicolon : r.kind = .semicolon → r.text = [0x3B]
  between : r.kind.leavesInside = false → r.mode = .between
  overrun : r.overrun = true → r.rest = []

/-- The kinds of tokens of which nothing has to be told. -/
def isPlain : Kind → Bool
  | .eof | .illegal _ | .comment | .newline | .semicolon => false
  | _ => true

theorem leavesInside_of_isPlain {kind : Kind} (h : isPlain kind = true) :
    kind.leavesInside = true := by
  cases kind <;> first | rfl | cases h

/-- A token of a plain kind has nothing to answer for, whatever its bytes and its mode. -/
theorem Reading.sane_of_isPlain {kind : Kind} {text rest : Text} {mode : Mode}
    (h : isPlain kind = true) : (Reading.mk kind text rest mode false).Sane := by
  constructor
  · rintro rfl
    cases h
  · rintro rfl
    cases h
  · rintro what rfl
    cases h
  · rintro rfl
    cases h
  · rintro rfl
    cases h
  · intro hleaves
    rw [leavesInside_of_isPlain h] at hleaves
    cases hleaves
  · nofun

theorem Reading.sane_unclosed {what : Unclosed} {s : Text} {mode : Mode} :
    (Reading.unclosed what s mode).Sane where
  kind_ne_eof := nofun
  byte := nofun
  unclosed _ _ := rfl
  newline := nofun
  semicolon := nofun
  between := nofun
  overrun := nofun

theorem Reading.sane_byte {b : UInt8} {s : Text} {mode : Mode} :
    (Reading.mk (.illegal .byte) [b] s mode false).Sane where
  kind_ne_eof := nofun
  byte _ := ⟨b, rfl⟩
  unclosed := nofun
  newline := nofun
  semicolon := nofun
  between := nofun
  overrun := nofun

/-- A string is read, or it has no end and nothing is left. -/
theorem sane_readString {opening whole : Text} {body? : Option Cut} {mode : Mode} :
    (readString opening body? whole mode).Sane := by
  unfold readString
  split
  · exact Reading.sane_of_isPlain rfl
  · exact Reading.sane_unclosed

/-- The reader steps past the end only in a string that has none. -/
theorem sane_readEscaped {opening whole body : Text} {mode : Mode} :
    { readString opening (closeEscaped? body) whole mode with
      overrun := (closeEscaped? body).isNone && escapesPastEnd body : Reading }.Sane := by
  have hstring := @sane_readString opening whole (closeEscaped? body) mode
  refine ⟨hstring.kind_ne_eof, hstring.byte, hstring.unclosed, hstring.newline,
    hstring.semicolon, hstring.between, fun h => ?_⟩
  rw [Bool.and_eq_true, Option.isNone_iff_eq_none] at h
  rw [h.1]
  rfl

/-- Of all marks only the semicolon ends a statement, and only a quotation can lack its end. -/
theorem sane_readMark {mode : Mode} {s : Text} (h : s ≠ []) : (readMark mode s).Sane := by
  unfold readMark
  split
  · exact ⟨nofun, nofun, nofun, nofun, fun _ => rfl, fun _ => rfl, nofun⟩
  · exact Reading.sane_of_isPlain rfl
  · split <;> exact Reading.sane_of_isPlain rfl
  · exact Reading.sane_of_isPlain rfl
  · split
    · exact Reading.sane_of_isPlain rfl
    · exact Reading.sane_unclosed
  · exact Reading.sane_of_isPlain rfl
  · exact sane_readString
  · split
    · exact Reading.sane_of_isPlain rfl
    · exact Reading.sane_unclosed
  · unfold readDollar
    split
    · exact sane_readString
    · exact Reading.sane_byte
  · exact Reading.sane_byte
  · exact absurd rfl h

/-- Punctuation of one byte is plain; the semicolon is read as a mark. -/
theorem isPlain_punctuation? {b : UInt8} {kind : Kind} (h : punctuation? b = some kind) :
    isPlain kind = true := by
  unfold punctuation? at h
  split at h <;> cases h <;> rfl

theorem isPlain_wordKind (s : Text) : isPlain (wordKind s) = true := by
  unfold wordKind
  split <;> rfl

theorem isPlain_numberKind (s : Text) : isPlain (numberKind s) = true := by
  unfold numberKind
  split <;> rfl

/-- Inside a statement every token is read sanely. -/
theorem sane_readInside {mode : Mode} {s : Text} (h : s ≠ []) : (readInside mode s).Sane := by
  unfold readInside
  split
  · exact absurd rfl h
  · split
    · rename_i kind hkind
      exact Reading.sane_of_isPlain (isPlain_punctuation? hkind)
    · split
      · exact sane_readEscaped
      · split
        · exact Reading.sane_of_isPlain (isPlain_numberKind _)
        · split
          · exact Reading.sane_of_isPlain (isPlain_wordKind _)
          · exact sane_readMark (by simp)

/-- Comments and line breaks leave the reader between statements. -/
theorem sane_readBetween? {s : Text} {r : Reading} (hr : readBetween? s = some r) (h : s ≠ []) :
    r.Sane := by
  unfold readBetween? at hr
  split at hr
  · exact absurd rfl h
  · cases hr
    exact ⟨nofun, nofun, nofun, fun _ => rfl, nofun, fun _ => rfl, nofun⟩
  · cases hr
    exact ⟨nofun, nofun, nofun, nofun, nofun, fun _ => rfl, nofun⟩
  · split at hr
    · cases hr
      exact ⟨nofun, nofun, nofun, nofun, nofun, fun _ => rfl, nofun⟩
    · cases hr
      exact Reading.sane_unclosed
  · cases hr

/-- Whatever is read before the end of a text, its kind tells the truth. -/
theorem sane_read {mode : Mode} {s : Text} (h : s ≠ []) : (read mode s).Sane := by
  unfold read
  split
  · cases hr : readBetween? s with
    | none => exact sane_readInside h
    | some r => exact sane_readBetween? hr h
  · exact sane_readInside h

/-- Where the source is not at its end, a token is read. -/
theorem skip_rest_eq_nil {l : Lexer} (h : l.next.1.kind = .eof) :
    (skip l.mode l.rest).rest = [] := by
  by_cases hrest : (skip l.mode l.rest).rest = []
  · exact hrest
  · exact absurd h (sane_read hrest).kind_ne_eof

/-- Where a token is read, something is left after the gap. -/
theorem skip_rest_ne_nil {l : Lexer} (h : l.next.1.kind ≠ .eof) :
    (skip l.mode l.rest).rest ≠ [] := by
  intro hnil
  refine h ?_
  show (read l.mode (skip l.mode l.rest).rest).kind = .eof
  rw [hnil, read_nil]
  rfl

/-! ### Runs of a lexer -/

/-- The lexer has read the part `before` of a source. -/
structure Reached (source before : Text) (l : Lexer) : Prop where
  source_eq : source = before ++ l.rest
  line : l.here.line = 1 + Text.newlines before
  offset : l.rest ≠ [] → l.here.offset = before.length

/-- At the start nothing has been read. -/
theorem reached_ofText (source : Text) : Reached source [] (ofText source) :=
  ⟨rfl, rfl, fun _ => rfl⟩

section Next

variable {source before : Text} {l : Lexer}

/-- A token begins after the gap before it. -/
theorem Reached.next_line (h : Reached source before l) :
    l.next.1.location.line = 1 + Text.newlines (before ++ (skip l.mode l.rest).taken) := by
  show (l.here.after (skip l.mode l.rest).taken).line = _
  rw [Location.after_line, h.line, Text.newlines_append]
  omega

/-- The offset of a token counts all bytes before it, except for the end, which may be past them. -/
theorem Reached.next_offset (h : Reached source before l) (hne : l.next.1.kind ≠ .eof) :
    l.next.1.location.offset = (before ++ (skip l.mode l.rest).taken).length := by
  -- a token other than the end has bytes, so the reader was not at the end
  have hl : l.rest ≠ [] := by
    intro hnil
    have hgap := whole_skip l.mode l.rest
    rw [Cut.whole, hnil, List.append_eq_nil_iff, ← hnil] at hgap
    exact skip_rest_ne_nil hne (hgap.2.trans hnil)
  show (l.here.after (skip l.mode l.rest).taken).offset = _
  rw [Location.after_offset, h.offset hl, List.length_append]

/-- Reading a token adds the gap before it and its bytes to what has been read. -/
theorem Reached.next (h : Reached source before l) (hne : l.next.1.kind ≠ .eof) :
    Reached source (before ++ (skip l.mode l.rest).taken ++ l.next.1.text) l.next.2 where
  source_eq := by
    rw [h.source_eq, List.append_assoc, List.append_assoc, ← List.append_assoc _ _ l.next.2.rest,
      next_whole]
  line := by
    have hline := h.next_line
    -- stepping past the end moves the offset, not the line
    have hafter : l.next.2.here.line = (l.next.1.location.after l.next.1.text).line := by
      show (if _ then overrun _ else _ : Location).line = _
      split <;> rfl
    rw [hafter, Location.after_line, hline, Text.newlines_append (before ++ _)]
    omega
  offset := by
    intro hrest
    have hsane := @sane_read l.mode _ (skip_rest_ne_nil hne)
    -- the reader steps past the end of the source only if nothing is left
    have hoverrun : (read l.mode (skip l.mode l.rest).rest).overrun = false := by
      cases hover : (read l.mode (skip l.mode l.rest).rest).overrun with
      | false => rfl
      | true => exact absurd (hsane.overrun hover) hrest
    have hafter : l.next.2.here = l.next.1.location.after l.next.1.text := by
      show (if _ then overrun _ else _ : Location) = _
      rw [if_neg (by rw [hoverrun]; decide)]
      rfl
    rw [hafter, Location.after_offset, h.next_offset hne, ← List.length_append]

end Next

end Lexer

end SqlStubs
