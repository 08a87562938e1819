import SqlStubs.Proofs.Lexer.Strings

/-!
# Block comments

`next_blockComment`: where `/*` stands, the block comment that is read is the one beginning of the
text that is a block comment, and if there is none, then all the rest is read as a comment that
never ends.  Between statements the comment is a token of its own; inside a statement it is skipped
as a whole, unless its `/*+` opens an escape.

Which texts are block comments is said by the grammar (`IsBlockComment`), in which a comment within
a comment is a part like any other; the reader only counts how many comments are open.  That the
count is right is `BlockBody.closeBlocks?_append`: the body of one comment takes the count down by
one, whatever the count is and whatever follows.  With `blockBody_blockComment?` this makes the two
agree in both directions.
-/

namespace SqlStubs.Lexer

variable {s r c : Text} {mode : Mode}

/-! ### The grammar and the reader -/

/-- A block comment: `/*` and what follows it through the matching `*/`, which is made of block
comments and of single bytes at which neither `/*` nor `*/` begins. -/
def IsBlockComment (c : Text) : Prop := ∃ body, c = [0x2F, 0x2A] ++ body ∧ BlockBody body

theorem IsBlockComment.blockComment?_append (h : IsBlockComment c) (r : Text) :
    blockComment? (c ++ r) = some ⟨c, r⟩ := by
  obtain ⟨body, rfl, hbody⟩ := h
  exact hbody.blockComment?_append r

/-- The reader takes the comment that stands at the front. -/
theorem blockComment?_eq_some_iff :
    blockComment? s = some ⟨c, r⟩ ↔ IsBlockComment c ∧ s = c ++ r := by
  constructor
  · intro h
    have hwhole : c ++ r = s := whole_blockComment? h
    exact ⟨blockBody_blockComment? h, hwhole.symm⟩
  · rintro ⟨hc, rfl⟩
    exact hc.blockComment?_append r

/-- Of all beginnings of a text at most one is a block comment. -/
theorem IsBlockComment.unique {d : Text} (hc : IsBlockComment c) (hcs : c <+: s)
    (hd : IsBlockComment d) (hds : d <+: s) : c = d := by
  obtain ⟨r, rfl⟩ := hcs
  obtain ⟨r', hr'⟩ := hds
  have hread := hc.blockComment?_append r
  rw [← hr', hd.blockComment?_append r'] at hread
  exact congrArg Cut.taken (Option.some.inj hread).symm

/-- The reader fails only where no comment stands at the front. -/
theorem blockComment?_eq_none_iff :
    blockComment? s = none ↔ ¬∃ c, IsBlockComment c ∧ c <+: s := by
  rw [← Option.not_isSome_iff_eq_none, Option.isSome_iff_exists, not_iff_not]
  constructor
  · rintro ⟨⟨c, r⟩, h⟩
    obtain ⟨hc, hs⟩ := blockComment?_eq_some_iff.1 h
    exact ⟨c, hc, r, hs.symm⟩
  · rintro ⟨c, hc, r, hs⟩
    exact ⟨⟨c, r⟩, blockComment?_eq_some_iff.2 ⟨hc, hs.symm⟩⟩

/-! ### What is skipped -/

/-- Whether a byte before a token is skipped by itself: a blank, and inside a statement also a line
break. -/
def Mode.skips : Mode → UInt8 → Bool
  | .between => isBlank
  | .inside | .escape => isSpace

/-- Whether an escape is opened here: inside a statement, at `/*+`, and not within an escape. -/
def OpensEscape (mode : Mode) (s : Text) : Prop := mode = .inside ∧ startsEscape s = true

/-- If a part is only skipped, then the next token is the one that is read behind it. -/
theorem next_of_skip {g : Text} (h : skip mode (g ++ s) = (skip mode s).prepend g)
    (here : Location) : next ⟨g ++ s, here, mode⟩ = next ⟨s, here.after g, mode⟩ := by
  simp only [next, h, Cut.rest_prepend, Cut.taken_prepend, Location.after_append]

theorem span_blanks {p : UInt8 → Bool} {blanks : Text} (h : ∀ b ∈ blanks, p b = true) (s : Text) :
    Cut.span p (blanks ++ s) = (Cut.span p s).prepend blanks := by
  rw [Cut.span, List.takeWhile_append_of_pos h, List.dropWhile_append_of_pos h]
  rfl

/-- Blanks in front of a gap are skipped with it. -/
theorem spacing_blanks {blanks : Text} (h : ∀ b ∈ blanks, isSpace b = true) (inEscape : Bool)
    (s : Text) : spacing inEscape (blanks ++ s) = (spacing inEscape s).prepend blanks := by
  have hspan := span_blanks h s
  have hrest : (Cut.span isSpace (blanks ++ s)).rest = (Cut.span isSpace s).rest := by
    rw [hspan, Cut.rest_prepend]
  -- what follows the blanks is the same with more of them in front
  cases hcomment : skippedComment? inEscape (Cut.span isSpace s).rest with
  | none =>
    rw [spacing_of_none hcomment, spacing_of_none (by rwa [hrest]), hspan]
  | some d =>
    rw [spacing_of_some hcomment, spacing_of_some (by rwa [hrest]), hspan]
    simp [Cut.prepend]

theorem skip_blanks {blanks : Text} (h : ∀ b ∈ blanks, mode.skips b = true) (s : Text) :
    skip mode (blanks ++ s) = (skip mode s).prepend blanks := by
  cases mode with
  | between => exact span_blanks h s
  | inside => exact spacing_blanks h false s
  | escape => exact spacing_blanks h true s

/-- No blank stands before a `/*`, so the gap there begins with what is skipped as a comment. -/
theorem span_slash (p : UInt8 → Bool) (hp : p 0x2F = false) (t : Text) :
    Cut.span p (0x2F :: t) = ⟨[], 0x2F :: t⟩ := by
  simp [Cut.span, hp]

/-- A comment in front of a gap is skipped with it, unless it opens an escape. -/
theorem spacing_comment {inEscape : Bool} (hc : IsBlockComment c)
    (hescape : (startsEscape (c ++ s) && !inEscape) = false) :
    spacing inEscape (c ++ s) = (spacing inEscape s).prepend c := by
  have hread := hc.blockComment?_append s
  obtain ⟨body, rfl, hbody⟩ := hc
  have hspan : Cut.span isSpace ([0x2F, 0x2A] ++ body ++ s) = ⟨[], [0x2F, 0x2A] ++ body ++ s⟩ :=
    span_slash isSpace rfl _
  have hskipped : skippedComment? inEscape ([0x2F, 0x2A] ++ body ++ s) =
      some ⟨[0x2F, 0x2A] ++ body, s⟩ := by
    rw [skippedComment?, hescape, hread]
    rfl
  rw [spacing_of_some (by rwa [hspan]), hspan]
  rfl

/-- Inside a statement a block comment is skipped as a whole. -/
theorem skip_comment (hc : IsBlockComment c) (hmode : mode ≠ .between)
    (hescape : ¬OpensEscape mode (c ++ s)) : skip mode (c ++ s) = (skip mode s).prepend c := by
  cases mode with
  | between => exact absurd rfl hmode
  | inside =>
    have hstarts : startsEscape (c ++ s) = false := by simpa [OpensEscape] using hescape
    refine spacing_comment hc ?_
    rw [hstarts, Bool.false_and]
  | escape =>
    refine spacing_comment hc ?_
    rw [Bool.not_true, Bool.and_false]

/-! ### What is read at `/*` -/

/-- Nothing is skipped before a `/*` that is not the start of a comment that is skipped. -/
theorem skip_slash {t : Text}
    (h : mode ≠ .between → skippedComment? (mode = .escape) (0x2F :: t) = none) :
    skip mode (0x2F :: t) = ⟨[], 0x2F :: t⟩ := by
  have hspacing : ∀ inEscape, skippedComment? inEscape (0x2F :: t) = none →
      spacing inEscape (0x2F :: t) = ⟨[], 0x2F :: t⟩ := by
    intro inEscape hnone
    have hspan := span_slash isSpace rfl t
    rw [spacing_of_none (by rwa [hspan]), hspan]
  cases mode with
  | between => exact span_slash isBlank rfl t
  | inside => exact hspacing false (h (by decide))
  | escape => exact hspacing true (h (by decide))

/-- Between statements a comment is a token. -/
theorem next_comment (hc : IsBlockComment c) (here : Location) :
    next ⟨c ++ r, here, .between⟩ = (⟨.comment, c, here⟩, ⟨r, here.after c, .between⟩) := by
  obtain ⟨body, rfl, hbody⟩ := hc
  have hread : blockComment? (0x2F :: 0x2A :: (body ++ r)) = some ⟨[0x2F, 0x2A] ++ body, r⟩ :=
    hbody.blockComment?_append r
  have hskip : skip .between ([0x2F, 0x2A] ++ body ++ r) = ⟨[], [0x2F, 0x2A] ++ body ++ r⟩ :=
    skip_slash (absurd rfl)
  have hcomment : read .between ([0x2F, 0x2A] ++ body ++ r) =
      .ofCut .comment ⟨[0x2F, 0x2A] ++ body, r⟩ .between := by
    show (readBetween? (0x2F :: 0x2A :: (body ++ r))).getD _ = _
    rw [readBetween?, hread]
    rfl
  simp only [next, hskip, hcomment]
  rfl

/-- A comment that never ends is read as one token for all the rest. -/
theorem next_unclosedComment {t : Text} (hnone : blockComment? (0x2F :: 0x2A :: t) = none)
    (hescape : ¬OpensEscape mode (0x2F :: 0x2A :: t)) (here : Location) :
    next ⟨0x2F :: 0x2A :: t, here, mode⟩ =
      (⟨.illegal (.unclosed .comment), 0x2F :: 0x2A :: t, here⟩,
        ⟨[], here.after (0x2F :: 0x2A :: t), mode⟩) := by
  have hskip : skip mode (0x2F :: 0x2A :: t) = ⟨[], 0x2F :: 0x2A :: t⟩ := by
    refine skip_slash fun _ => ?_
    rw [skippedComment?, hnone, ite_self]
    rfl
  -- it is the same token in all modes, read in three different ways
  have hread : read mode (0x2F :: 0x2A :: t) = .unclosed .comment (0x2F :: 0x2A :: t) mode := by
    cases mode with
    | between =>
      show (readBetween? (0x2F :: 0x2A :: t)).getD _ = _
      rw [readBetween?, hnone]
      rfl
    | inside => exact readInside_comment fun h => hescape ⟨rfl, startsEscape_comment.2 h.2⟩
    | escape => exact readInside_comment fun h => h.1 rfl
  simp only [next, hskip, hread]
  rfl

/-- Inside a statement `/*+` opens an escape. -/
theorem next_escapeOpen (t : Text) (here : Location) :
    next ⟨[0x2F, 0x2A, 0x2B] ++ t, here, .inside⟩ =
      (⟨.escapeOpen, [0x2F, 0x2A, 0x2B], here⟩,
        ⟨t, here.after [0x2F, 0x2A, 0x2B], .escape⟩) := by
  have hskip : skip .inside ([0x2F, 0x2A, 0x2B] ++ t) = ⟨[], [0x2F, 0x2A, 0x2B] ++ t⟩ :=
    skip_slash fun _ => rfl
  have hread : read .inside ([0x2F, 0x2A, 0x2B] ++ t) =
      ⟨.escapeOpen, [0x2F, 0x2A, 0x2B], t, .escape, false⟩ := rfl
  simp only [next, hskip, hread]
  rfl

/-- Block comments are recognised exactly.  Where `/*` stands, the reader takes the one beginning of
the text that is a block comment, and fails only if there is none.  Whatever blanks come before,
between statements the comment is the next token, also if it begins with `/*+`; inside a statement
the next token is the one behind it, unless an escape is opened; and a comment without an end is
read as one that stands for all the rest. -/
theorem next_blockComment (t : Text) :
    let s := [0x2F, 0x2A] ++ t
    (∀ c r, blockComment? s = some ⟨c, r⟩ ↔ IsBlockComment c ∧ s = c ++ r) ∧
    (∀ c d, IsBlockComment c → c <+: s → IsBlockComment d → d <+: s → c = d) ∧
    (blockComment? s = none ↔ ¬∃ c, IsBlockComment c ∧ c <+: s) ∧
    ∀ (here : Location) (mode : Mode) (blanks : Text), (∀ b ∈ blanks, mode.skips b = true) →
      let l : Lexer := ⟨blanks ++ s, here, mode⟩
      let start := here.after blanks
      (∀ c r, IsBlockComment c → s = c ++ r → mode = .between →
        l.next = (⟨.comment, c, start⟩, ⟨r, start.after c, .between⟩)) ∧
      (∀ c r, IsBlockComment c → s = c ++ r → mode ≠ .between → ¬OpensEscape mode s →
        l.next = next ⟨r, start.after c, mode⟩) ∧
      (OpensEscape mode s → l.next = (⟨.escapeOpen, [0x2F, 0x2A, 0x2B], start⟩,
        ⟨s.drop 3, start.after [0x2F, 0x2A, 0x2B], .escape⟩)) ∧
      ((¬∃ c, IsBlockComment c ∧ c <+: s) → ¬OpensEscape mode s →
        l.next = (⟨.illegal (.unclosed .comment), s, start⟩, ⟨[], start.after s, mode⟩)) := by
  intro s
  refine ⟨fun c r => blockComment?_eq_some_iff, fun c d hc hcs hd hds => hc.unique hcs hd hds,
    blockComment?_eq_none_iff, fun here mode blanks hblanks => ?_⟩
  intro l start
  -- blanks only move the place
  have hstart : l.next = next ⟨s, start, mode⟩ := next_of_skip (skip_blanks hblanks s) here
  rw [hstart]
  refine ⟨fun c r hc hs hmode => ?_, fun c r hc hs hmode hescape => ?_, fun hescape => ?_,
    fun hnone hescape => ?_⟩
  · rw [hs, hmode]
    exact next_comment hc start
  · rw [hs] at hescape ⊢
    exact next_of_skip (skip_comment hc hmode hescape) start
  · obtain ⟨rfl, hplus⟩ := hescape
    obtain ⟨u, rfl⟩ := List.head?_eq_some_iff.1 (startsEscape_comment.1 hplus)
    exact next_escapeOpen u start
  · exact next_unclosedComment (blockComment?_eq_none_iff.2 hnone) hescape start

/-- Marks that overlap are read from the left: this comment holds one that holds one. -/
example : blockComment? (Text.utf8 "/*/*/**/*/*/*/") =
    some ⟨Text.utf8 "/*/*/**/*/*/", Text.utf8 "*/"⟩ := by
  decide +kernel

end SqlStubs.Lexer
