import SqlStubs.Lexer.Reading
import SqlStubs.Proofs.Lexer.Gap

/-!
# Parts of a source that end by themselves

Where a comment or a quotation ends is seen from its own bytes: before any other rest the same part
is taken (`BlockBody.blockComment?_append`, `closeDelimiter?_append`).  Some parts are only known to
be at their end by the byte after them, a quotation by one that does not double its closing mark, a
line comment by the line break, a run of bytes of one class by a byte of another, so their lemmas
ask for as much of the new rest.  A gap inside a statement is made of such parts
(`spacing_append`).
-/

namespace SqlStubs.Lexer

variable {s r b : Text} {c : Cut}

/-! ### Runs of bytes -/

theorem head?_any_of_append {p : UInt8 → Bool} (h : (s ++ b).head?.any p = false) :
    s.head?.any p = false := by
  cases s with
  | nil => rfl
  | cons a s => exact h

theorem head?_append_of_ne_nil (hs : s ≠ []) : (s ++ r).head? = s.head? := by
  cases s with
  | nil => exact absurd rfl hs
  | cons a s => rfl

theorem head?_append_of_head? {a : UInt8} (h : s.head? = some a) : (s ++ r).head? = some a := by
  rw [List.head?_append, h, Option.some_or]

/-- What does not begin a text with something after it does not begin the text. -/
theorem head?_ne_of_append {a : UInt8} (h : (s ++ r).head? ≠ some a) : s.head? ≠ some a :=
  fun hs => h (head?_append_of_head? hs)

/-- A run of bytes of one class ends before a byte of another. -/
theorem span_append {p : UInt8 → Bool} (hs : ∀ a ∈ s, p a = true) (hr : r.head?.any p = false) :
    Cut.span p (s ++ r) = ⟨s, r⟩ := by
  -- of `r` nothing is taken and all is left
  have htake : r.takeWhile p = [] := by
    cases r with
    | nil => rfl
    | cons a r => exact List.takeWhile_cons_of_neg (by simpa using hr)
  have hdrop : r.dropWhile p = r := by
    cases r with
    | nil => rfl
    | cons a r => exact List.dropWhile_cons_of_neg (by simpa using hr)
  rw [Cut.span, List.takeWhile_append_of_pos hs, List.dropWhile_append_of_pos hs, htake, hdrop,
    List.append_nil]

/-- The byte after a run is not in its class. -/
theorem head?_rest_span (p : UInt8 → Bool) (s : Text) :
    (Cut.span p s).rest.head?.any p = false := by
  have h := List.head?_dropWhile_not p s
  show (s.dropWhile p).head?.any p = false
  cases hhead : (s.dropWhile p).head? with
  | none => rfl
  | some a =>
    rw [hhead] at h
    simpa using h

/-! ### Comments -/

/-- A byte that begins no mark is read by itself. -/
theorem closeBlocks?_of_not_startsMark {depth : Nat} {a : UInt8} (h : startsMark (a :: s) = false) :
    closeBlocks? (depth + 1) (a :: s) = (closeBlocks? (depth + 1) s).map (·.prepend [a]) := by
  rw [closeBlocks?]
  · rintro t rfl rfl
    cases h
  · rintro t rfl rfl
    cases h

/-- The body of a comment closes one of the comments that are open, and is taken whole. -/
theorem BlockBody.closeBlocks?_append {body : Text} (h : BlockBody body) (depth : Nat) (r : Text) :
    closeBlocks? (depth + 1) (body ++ r) = (closeBlocks? depth r).map (·.prepend body) := by
  -- on the body, at any depth and before any rest
  induction h generalizing depth r with
  | close =>
    show closeBlocks? (depth + 1) (0x2A :: 0x2F :: r) = _
    rw [closeBlocks?]
  | @nested inner outer _ _ ihInner ihOuter =>
    -- the inner body goes from two open comments more to one, the outer body on to none
    have hinner := ihInner (depth + 1) (outer ++ r)
    have houter := ihOuter depth r
    show closeBlocks? (depth + 1) (0x2F :: 0x2A :: (inner ++ outer ++ r)) = _
    rw [closeBlocks?, List.append_assoc, hinner, houter, Option.map_map, Option.map_map]
    congr 1
    funext d
    simp [Cut.prepend]
  | @byte b body hplain hbody ih =>
    -- the body is not empty, so `r` does not decide whether a mark begins
    have hmark : startsMark (b :: (body ++ r)) = false := by
      rwa [startsMark_append hbody.ne_nil]
    rw [List.cons_append, closeBlocks?_of_not_startsMark hmark, ih, Option.map_map]
    congr 1

/-- A block comment ends by itself. -/
theorem BlockBody.blockComment?_append {body : Text} (h : BlockBody body) (r : Text) :
    blockComment? ([0x2F, 0x2A] ++ body ++ r) = some ⟨[0x2F, 0x2A] ++ body, r⟩ := by
  have hclose := h.closeBlocks?_append 0 r
  show (closeBlocks? 1 (body ++ r)).map (·.prepend [0x2F, 0x2A]) = _
  rw [hclose, closeBlocks?]
  simp [Cut.prepend]

/-- The same comment is read before any other rest. -/
theorem blockComment?_append (h : blockComment? s = some c) :
    blockComment? (c.taken ++ r) = some ⟨c.taken, r⟩ := by
  obtain ⟨body, htaken, hbody⟩ := blockBody_blockComment? h
  rw [htaken]
  exact hbody.blockComment?_append r

/-- A line comment ends at the line break or at the end of the source, and nowhere else. -/
theorem lineComment?_append (h : lineComment? s = some c) (hr : ∀ a ∈ r.head?, a = 0x0A) :
    lineComment? (c.taken ++ r) = some ⟨c.taken, r⟩ := by
  unfold lineComment? at h
  split at h
  · cases h
    rename_i t
    show some ((restOfLine ((restOfLine t).taken ++ r)).prepend _) = _
    have hspan : restOfLine ((restOfLine t).taken ++ r) = ⟨(restOfLine t).taken, r⟩ := by
      refine span_append mem_span ?_
      cases r with
      | nil => rfl
      | cons a r => simp [hr a rfl]
    rw [hspan]
    rfl
  · cases h

/-! ### Quotations -/

/-- A quotation that ends has taken at least its closing mark. -/
theorem taken_closeDoubled? {q : UInt8} (h : closeDoubled? q s = some c) : c.taken ≠ [] := by
  unfold closeDoubled? at h
  split at h
  · cases h
  · split at h <;> cases h
    simp
  · split at h
    · split at h
      · obtain ⟨d, -, rfl⟩ := Option.map_eq_some_iff.1 h
        simp
      · cases h
        simp
    · obtain ⟨d, -, rfl⟩ := Option.map_eq_some_iff.1 h
      simp

/-- A quotation ends by itself, if its closing mark is not doubled by what follows. -/
theorem closeDoubled?_append {q : UInt8} (h : closeDoubled? q s = some c) (hr : r.head? ≠ some q) :
    closeDoubled? q (c.taken ++ r) = some ⟨c.taken, r⟩ := by
  -- the closing mark itself, which both ends of the reading come to
  have hclose : closeDoubled? q (q :: r) = some ⟨[q], r⟩ := by
    cases r with
    | nil => simp [closeDoubled?]
    | cons a r =>
      have ha : a ≠ q := by simpa using hr
      simp [closeDoubled?, ha]
  fun_induction closeDoubled? q s generalizing c with
  | case1 => cases h
  | case2 =>
    cases h
    exact hclose
  | case3 => cases h
  | case4 s ih =>
    obtain ⟨d, hd, rfl⟩ := Option.map_eq_some_iff.1 h
    simp [closeDoubled?, ih hd, Cut.prepend]
  | case5 a s _ =>
    cases h
    exact hclose
  | case6 a a' s ha ih =>
    obtain ⟨d, hd, rfl⟩ := Option.map_eq_some_iff.1 h
    have hrest := ih hd
    -- the reader looks at two bytes, and the second is still one of those that were taken
    obtain ⟨x, t, ht⟩ := List.exists_cons_of_ne_nil (taken_closeDoubled? hd)
    rw [ht, List.cons_append] at hrest
    simp [closeDoubled?, ha, ht, hrest, Cut.prepend]

/-- A quotation is not left before a doubled closing mark. -/
theorem head?_rest_closeDoubled? {q : UInt8} (h : closeDoubled? q s = some c) :
    c.rest.head? ≠ some q := by
  fun_induction closeDoubled? q s generalizing c with
  | case1 | case3 => cases h
  | case2 =>
    cases h
    simp
  | case5 a s ha =>
    cases h
    simpa using ha
  | case4 | case6 =>
    rename_i ih
    obtain ⟨d, hd, rfl⟩ := Option.map_eq_some_iff.1 h
    rw [Cut.rest_prepend]
    exact ih hd

/-- An apostrophe that is not doubled closes. -/
theorem closeEscaped?_apostrophe (hr : r.head? ≠ some 0x27) :
    closeEscaped? (0x27 :: r) = some ⟨[0x27], r⟩ := by
  unfold closeEscaped?
  split <;> simp_all

/-- A backslash is the last byte of a text or has one after it. -/
theorem ne_backslash {a : UInt8} (hlast : a = 0x5C → s = [] → False)
    (hslash : ∀ b t, a = 0x5C → s = b :: t → False) : a ≠ 0x5C := by
  intro ha
  cases s with
  | nil => exact hlast ha rfl
  | cons b t => exact hslash b t ha rfl

theorem closeEscaped?_of_plain {a : UInt8} (hslash : a ≠ 0x5C) (hquote : a ≠ 0x27) :
    closeEscaped? (a :: s) = (closeEscaped? s).map (·.prepend [a]) := by
  rw [closeEscaped?.eq_def]
  split <;> simp_all

/-- A string with backslashes ends by itself as well. -/
theorem closeEscaped?_append (h : closeEscaped? s = some c) (hr : r.head? ≠ some 0x27) :
    closeEscaped? (c.taken ++ r) = some ⟨c.taken, r⟩ := by
  fun_induction closeEscaped? s generalizing c with
  | case1 | case2 => cases h
  | case3 | case4 =>
    rename_i ih
    obtain ⟨d, hd, rfl⟩ := Option.map_eq_some_iff.1 h
    simp [closeEscaped?, ih hd, Cut.prepend]
  | case5 =>
    cases h
    exact closeEscaped?_apostrophe hr
  | case6 a s hlast hslash hdouble hquote ih =>
    obtain ⟨d, hd, rfl⟩ := Option.map_eq_some_iff.1 h
    -- a backslash would have been read together with the byte after it
    have ha : a ≠ 0x5C := ne_backslash hlast hslash
    show closeEscaped? (a :: (d.taken ++ r)) = _
    rw [closeEscaped?_of_plain ha hquote, ih hd]
    rfl

theorem head?_rest_closeEscaped? (h : closeEscaped? s = some c) : c.rest.head? ≠ some 0x27 := by
  fun_induction closeEscaped? s generalizing c with
  | case1 | case2 => cases h
  | case5 s hdouble =>
    cases h
    intro hquote
    obtain ⟨t, ht⟩ := List.head?_eq_some_iff.1 hquote
    exact hdouble t ht
  | case3 | case4 | case6 =>
    rename_i ih
    obtain ⟨d, hd, rfl⟩ := Option.map_eq_some_iff.1 h
    rw [Cut.rest_prepend]
    exact ih hd

/-- The first occurrence of a mark is still the first before any other rest. -/
theorem splitAtFirst?_append {mark before after : Text} (hmark : mark ≠ [])
    (h : Text.splitAtFirst? mark s = some (before, after)) :
    Text.splitAtFirst? mark (before ++ mark ++ r) = some (before, r) := by
  fun_induction Text.splitAtFirst? mark s generalizing before after with
  | case1 hempty => exact absurd (List.isEmpty_iff.1 hempty) hmark
  | case2 => cases h
  | case3 a s hprefix =>
    cases h
    obtain ⟨m, ms, rfl⟩ := List.exists_cons_of_ne_nil hmark
    have hfirst : (m :: ms).isPrefixOf (m :: (ms ++ r)) = true :=
      List.isPrefixOf_iff_prefix.2 (List.prefix_append (m :: ms) r)
    show Text.splitAtFirst? (m :: ms) (m :: (ms ++ r)) = _
    rw [Text.splitAtFirst?, if_pos hfirst]
    simp
  | case4 a s hprefix ih =>
    obtain ⟨⟨x, y⟩, hd, he⟩ := Option.map_eq_some_iff.1 h
    obtain ⟨rfl, rfl⟩ := Prod.mk.inj he
    -- an earlier occurrence would lie in the part that the two texts share
    have hlater : ¬mark.isPrefixOf (a :: (x ++ mark ++ r)) = true := by
      intro hearly
      refine hprefix (List.isPrefixOf_iff_prefix.2 ?_)
      have hshared : mark <+: a :: (x ++ mark) :=
        List.prefix_of_prefix_length_le (List.isPrefixOf_iff_prefix.1 hearly)
          (List.prefix_append (a :: (x ++ mark)) r) (by simp; omega)
      rw [← splitAtFirst?_eq hd]
      exact hshared.trans (List.prefix_append (a :: (x ++ mark)) y)
    show Text.splitAtFirst? mark (a :: (x ++ mark ++ r)) = _
    rw [Text.splitAtFirst?, if_neg hlater, ih hd]
    rfl

/-- A dollar string ends with its delimiter, whatever follows. -/
theorem closeDelimiter?_append {mark : Text} (hmark : mark ≠ [])
    (h : closeDelimiter? mark s = some c) :
    closeDelimiter? mark (c.taken ++ r) = some ⟨c.taken, r⟩ := by
  obtain ⟨⟨x, y⟩, hd, rfl⟩ := Option.map_eq_some_iff.1 h
  rw [closeDelimiter?, splitAtFirst?_append hmark hd]
  rfl

/-- A dollar delimiter ends with its second dollar sign. -/
theorem dollarDelimiter?_append (h : dollarDelimiter? s = some c) :
    dollarDelimiter? (c.taken ++ r) = some ⟨c.taken, r⟩ := by
  unfold dollarDelimiter? at h
  split at h
  · rename_i t
    dsimp only at h
    split at h
    · rename_i rest hrest
      split at h
      · cases h
      · rename_i htag
        cases h
        -- the dollar sign is no byte of a tag, so it still ends the tag
        have hspan : Cut.span isTagByte ((Cut.span isTagByte t).taken ++ 0x24 :: r) =
            ⟨(Cut.span isTagByte t).taken, 0x24 :: r⟩ := span_append mem_span (by simp [isTagByte])
        show dollarDelimiter? (0x24 :: ((Cut.span isTagByte t).taken ++ [0x24] ++ r)) = _
        rw [List.append_assoc, List.singleton_append]
        simp only [dollarDelimiter?, hspan, if_neg htag]
    · cases h
  · cases h

/-- Bytes behind a text do not make its front less of a delimiter. -/
theorem dollarDelimiter?_of_append (h : dollarDelimiter? (s ++ r) = none) :
    dollarDelimiter? s = none := by
  cases hd : dollarDelimiter? s with
  | none => rfl
  | some d =>
    have hwhole := whole_dollarDelimiter? hd
    rw [← hwhole, Cut.whole, List.append_assoc, dollarDelimiter?_append hd] at h
    cases h

theorem taken_dollarDelimiter? (h : dollarDelimiter? s = some c) : c.taken ≠ [] := by
  unfold dollarDelimiter? at h
  split at h
  · dsimp only at h
    split at h
    · split at h <;> cases h
      simp
    · cases h
  · cases h

/-! ### Gaps -/

/-- Whether a block comment opens an escape is seen from its third byte. -/
theorem startsEscape_append {t : Text} (hs : s ≠ []) :
    startsEscape (0x2F :: 0x2A :: (s ++ r)) = startsEscape (0x2F :: 0x2A :: (s ++ t)) := by
  cases s with
  | nil => exact absurd rfl hs
  | cons a s =>
    by_cases ha : a = 0x2B
    · subst ha
      rfl
    · simp [startsEscape, ha]

/-- An escape is a comment whose third byte is a plus sign. -/
theorem startsEscape_comment :
    startsEscape (0x2F :: 0x2A :: s) = true ↔ s.head? = some 0x2B := by
  cases s with
  | nil => simp [startsEscape]
  | cons a s =>
    by_cases ha : a = 0x2B
    · subst ha
      simp [startsEscape]
    · simp [startsEscape, ha]

/-- A comment that stands where a token is read inside a statement never ends. -/
theorem readInside_comment {mode : Mode} (h : ¬(mode ≠ .escape ∧ s.head? = some 0x2B)) :
    readInside mode (0x2F :: 0x2A :: s) = .unclosed .comment (0x2F :: 0x2A :: s) mode :=
  if_neg h

/-- A comment that is skipped ends by itself, a line comment with its line. -/
theorem skippedComment?_append {inEscape : Bool} (h : skippedComment? inEscape s = some c)
    (hr : (lineComment? s).isSome = true → ∀ a ∈ r.head?, a = 0x0A) :
    skippedComment? inEscape (c.taken ++ r) = some ⟨c.taken, r⟩ := by
  rcases Option.or_eq_some_iff.1 h with hline | ⟨-, hblock⟩
  · rw [skippedComment?, lineComment?_append hline (hr (by simp [hline])), Option.some_or]
  · split at hblock
    · cases hblock
    · rename_i hescape
      obtain ⟨body, htaken, hbody⟩ := blockBody_blockComment? hblock
      have hwhole := whole_blockComment? hblock
      -- the body is not empty, so the third byte is one of its own
      have hstarts : startsEscape (c.taken ++ r) = startsEscape s := by
        rw [← hwhole, Cut.whole, htaken]
        exact startsEscape_append hbody.ne_nil
      have hnone : lineComment? (c.taken ++ r) = none := by
        rw [htaken]
        rfl
      rw [skippedComment?, hnone, Option.none_or, hstarts, if_neg hescape,
        blockComment?_append hblock]

/-- A gap without a comment is its blanks. -/
theorem spacing_of_none {inEscape : Bool}
    (h : skippedComment? inEscape (Cut.span isSpace s).rest = none) :
    spacing inEscape s = Cut.span isSpace s := by
  rw [spacing]
  split
  · rfl
  · rename_i hsome
    rw [h] at hsome
    cases hsome

/-- A gap with a comment is its blanks, the comment and the gap after it. -/
theorem spacing_of_some {inEscape : Bool}
    (h : skippedComment? inEscape (Cut.span isSpace s).rest = some c) :
    spacing inEscape s =
      (spacing inEscape c.rest).prepend ((Cut.span isSpace s).taken ++ c.taken) := by
  rw [spacing]
  split
  · rename_i hnone
    rw [h] at hnone
    cases hnone
  · rename_i hsome
    rw [h] at hsome
    cases hsome
    rfl

/-- Neither a blank nor a comment follows a gap. -/
theorem rest_spacing (inEscape : Bool) (s : Text) :
    (spacing inEscape s).rest.head?.any isSpace = false ∧
      skippedComment? inEscape (spacing inEscape s).rest = none := by
  fun_induction spacing inEscape s with
  | case1 s blank h => exact ⟨head?_rest_span isSpace s, h⟩
  | case2 s blank c h ih => exact ih

/-- After a line comment a gap goes on with the line break. -/
theorem head?_spacing_of_lineComment? {inEscape : Bool} {d : Cut} (h : lineComment? s = some d)
    (hrest : (spacing inEscape d.rest).rest ≠ []) :
    ((spacing inEscape d.rest).taken ++ r).head? = some 0x0A := by
  have hwhole := whole_spacing inEscape d.rest
  rw [Cut.whole] at hwhole
  have hbreak : ∀ a ∈ d.rest.head?, a = 0x0A := by
    unfold lineComment? at h
    split at h
    · cases h
      exact head?_restOfLine
    · cases h
  cases htaken : (spacing inEscape d.rest).taken with
  -- an empty gap would leave the line break behind, which is a blank here
  | nil =>
    obtain ⟨a, t, hat⟩ := List.exists_cons_of_ne_nil hrest
    rw [htaken, hat] at hwhole
    have hspace := (rest_spacing inEscape d.rest).1
    rw [hat, hbreak a (by rw [← hwhole]; rfl)] at hspace
    cases hspace
  | cons a t =>
    rw [htaken] at hwhole
    rw [hbreak a (by rw [← hwhole]; rfl)]
    rfl

/-- A gap inside a statement stays the same before another rest, if that does not go on with it. -/
theorem spacing_append {inEscape : Bool} (hrest : (spacing inEscape s).rest ≠ [])
    (hspace : r.head?.any isSpace = false) (hcomment : skippedComment? inEscape r = none) :
    spacing inEscape ((spacing inEscape s).taken ++ r) = ⟨(spacing inEscape s).taken, r⟩ := by
  fun_induction spacing inEscape s with
  | case1 s blank _ =>
    have hspan : Cut.span isSpace (blank.taken ++ r) = ⟨blank.taken, r⟩ :=
      span_append mem_span hspace
    rw [spacing_of_none (by rwa [hspan]), hspan]
  | case2 s blank c h ih =>
    rw [Cut.rest_prepend] at hrest
    rw [Cut.taken_prepend, List.append_assoc, List.append_assoc]
    -- the blanks end at the comment, and the comment ends by itself
    have hspan :
        Cut.span isSpace (blank.taken ++ (c.taken ++ ((spacing inEscape c.rest).taken ++ r))) =
          ⟨blank.taken, c.taken ++ ((spacing inEscape c.rest).taken ++ r)⟩ := by
      have hhead := head?_rest_span isSpace s
      rw [← whole_skippedComment? h, Cut.whole,
        head?_append_of_ne_nil (taken_skippedComment? h)] at hhead
      refine span_append mem_span ?_
      rwa [head?_append_of_ne_nil (taken_skippedComment? h)]
    have hskipped : skippedComment? inEscape (c.taken ++ ((spacing inEscape c.rest).taken ++ r)) =
        some ⟨c.taken, (spacing inEscape c.rest).taken ++ r⟩ := by
      refine skippedComment?_append h fun hline => ?_
      obtain ⟨d, hd⟩ := Option.isSome_iff_exists.1 hline
      have hcd : c = d := by
        rw [skippedComment?, hd, Option.some_or] at h
        exact (Option.some.inj h).symm
      subst hcd
      rw [head?_spacing_of_lineComment? hd hrest]
      simp
    rw [spacing_of_some (by rw [hspan]; exact hskipped), hspan, ih hrest]
    simp [Cut.prepend]

end SqlStubs.Lexer
