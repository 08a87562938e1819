import SqlStubs.Lexer.Gap

/-!
# What is skipped between two tokens

`gap_skip`: between statements only blanks are skipped, and inside a statement blanks, line breaks
and complete comments.  What a complete comment is does not depend on how comments are skipped: a
block comment is given by a grammar (`BlockBody`), while the reader counts the comments that are
still open, so the two are brought together by `blockBodies_closeBlocks?`: a text through the end of
`n` open comments is `n` bodies of comments, one after the other.
-/

namespace SqlStubs.Lexer

/-! ### Block comments -/

/-- Whether `/*` or `*/` begins here. -/
def startsMark : Text → Bool
  | 0x2F :: 0x2A :: _ => true
  | 0x2A :: 0x2F :: _ => true
  | _ => false

/-- What follows the `/*` of a block comment, through the matching `*/`. -/
inductive BlockBody : Text → Prop
  | close : BlockBody [0x2A, 0x2F]
  | nested {s t : Text} (inner : BlockBody s) (others : BlockBody t) :
      BlockBody (0x2F :: 0x2A :: (s ++ t))
  | byte {b : UInt8} {s : Text} (plain : startsMark (b :: s) = false) (others : BlockBody s) :
      BlockBody (b :: s)

/-- Bodies of block comments, one after the other. -/
inductive BlockBodies : Nat → Text → Prop
  | nil : BlockBodies 0 []
  | cons {n : Nat} {s t : Text} (first : BlockBody s) (others : BlockBodies n t) :
      BlockBodies (n + 1) (s ++ t)

/-- A body has at least the mark that closes it. -/
theorem BlockBody.ne_nil {s : Text} (h : BlockBody s) : s ≠ [] := by
  cases h <;> simp

/-- Whether a mark begins is seen from one byte more. -/
theorem startsMark_append {b : UInt8} {s t : Text} (hs : s ≠ []) :
    startsMark (b :: (s ++ t)) = startsMark (b :: s) := by
  cases s with
  | nil => exact absurd rfl hs
  | cons c s =>
    unfold startsMark
    split <;> split <;> simp_all

/-- The text through the end of `n` open comments is `n` bodies of comments. -/
theorem blockBodies_closeBlocks? {n : Nat} {s : Text} {c : Cut} (h : closeBlocks? n s = some c) :
    BlockBodies n c.taken := by
  -- by induction on the reading, one case for each way in which a byte or mark is read
  fun_induction closeBlocks? n s generalizing c with
  | case1 s =>
    cases h
    exact .nil
  | case2 => cases h
  | case3 n s ih =>
    obtain ⟨d, hd, rfl⟩ := Option.map_eq_some_iff.1 h
    exact .cons .close (ih hd)
  | case4 n s ih =>
    obtain ⟨d, hd, rfl⟩ := Option.map_eq_some_iff.1 h
    rw [Cut.taken_prepend]
    have hbodies := ih hd
    generalize d.taken = taken at hbodies
    -- after a further `/*`, the first body is that of the inner comment, and the second is the rest
    -- of the outer one
    cases hbodies with
    | @cons _ inner _ hinner hothers =>
      cases hothers with
      | @cons _ outer others houter hothers =>
        have hbody : BlockBody (0x2F :: 0x2A :: (inner ++ outer)) := .nested hinner houter
        simpa using BlockBodies.cons hbody hothers
  | case5 n b s hclose hopen ih =>
    obtain ⟨d, hd, rfl⟩ := Option.map_eq_some_iff.1 h
    -- a byte that begins no mark belongs to the first body, which goes on after it
    have hplain : startsMark (b :: s) = false := by
      unfold startsMark
      split <;> simp_all
    have hwhole := whole_closeBlocks? hd
    rw [Cut.taken_prepend]
    rw [← hwhole, Cut.whole] at hplain
    have hbodies := ih hd
    generalize d.taken = taken at hbodies hplain
    cases hbodies with
    | @cons _ first others hfirst hothers =>
      rw [List.append_assoc, startsMark_append hfirst.ne_nil] at hplain
      show BlockBodies (_ + 1) ((b :: first) ++ others)
      exact .cons (.byte hplain hfirst) hothers

/-- What follows the opener of a comment is a body: that of one open comment. -/
theorem blockBody_blockComment? {s : Text} {c : Cut} (h : blockComment? s = some c) :
    ∃ body, c.taken = [0x2F, 0x2A] ++ body ∧ BlockBody body := by
  unfold blockComment? at h
  split at h
  · obtain ⟨d, hd, rfl⟩ := Option.map_eq_some_iff.1 h
    have hbodies := blockBodies_closeBlocks? hd
    refine ⟨d.taken, rfl, ?_⟩
    generalize d.taken = taken at hbodies
    cases hbodies with
    | cons first others =>
      cases others
      rw [List.append_nil]
      exact first
  · cases h

/-! ### Gaps -/

/-- A gap, before the text `rest`.  Only inside a statement it may hold line breaks and comments; a
line comment is complete if its line is. -/
inductive Gap (inside : Bool) (rest : Text) : Text → Prop
  | nil : Gap inside rest []
  | blank {b : UInt8} {s : Text} (h : b ∈ [0x20, 0x09, 0x0D, 0x0C]) (others : Gap inside rest s) :
      Gap inside rest (b :: s)
  | newline {s : Text} (hinside : inside = true) (others : Gap inside rest s) :
      Gap inside rest (0x0A :: s)
  | line {c s : Text} (hinside : inside = true) (h : 0x0A ∉ c)
      (ends : ∀ b ∈ (s ++ rest).head?, b = 0x0A) (others : Gap inside rest s) :
      Gap inside rest (0x2D :: 0x2D :: (c ++ s))
  | block {c s : Text} (hinside : inside = true) (h : BlockBody c) (others : Gap inside rest s) :
      Gap inside rest (0x2F :: 0x2A :: (c ++ s))

theorem gap_of_blanks {inside : Bool} {rest s t : Text} (hs : ∀ b ∈ s, isBlank b = true)
    (ht : Gap inside rest t) : Gap inside rest (s ++ t) := by
  induction s with
  | nil => exact ht
  | cons b s ih =>
    rw [List.forall_mem_cons] at hs
    refine .blank ?_ (ih hs.2)
    simpa [isBlank, or_assoc] using hs.1

/-- Inside a statement line breaks may stand between the blanks. -/
theorem gap_of_spaces {rest s t : Text} (hs : ∀ b ∈ s, isSpace b = true)
    (ht : Gap true rest t) : Gap true rest (s ++ t) := by
  induction s with
  | nil => exact ht
  | cons b s ih =>
    rw [List.forall_mem_cons] at hs
    by_cases hb : b = 0x0A
    · rw [hb]
      exact .newline rfl (ih hs.2)
    · refine .blank ?_ (ih hs.2)
      simpa [isSpace, isBlank, hb, or_assoc] using hs.1

/-- All bytes of a span are in its class. -/
theorem mem_span {p : UInt8 → Bool} {s : Text} : ∀ b ∈ (Cut.span p s).taken, p b = true :=
  List.all_eq_true.1 List.all_takeWhile

/-- The rest of a line ends at a line break or at the end of the source. -/
theorem head?_restOfLine {s : Text} : ∀ b ∈ (restOfLine s).rest.head?, b = 0x0A := by
  intro b hb
  have hhead := List.head?_dropWhile_not (· ≠ (0x0A : UInt8)) s
  have hb' : (s.dropWhile (· ≠ (0x0A : UInt8))).head? = some b := hb
  rw [hb'] at hhead
  simpa using hhead

/-- A comment that is skipped, and a gap after it. -/
theorem gap_skippedComment? {inEscape : Bool} {s rest t : Text} {c : Cut}
    (h : skippedComment? inEscape s = some c) (hrest : t ++ rest = c.rest) (ht : Gap true rest t) :
    Gap true rest (c.taken ++ t) := by
  rcases Option.or_eq_some_iff.1 h with h | ⟨-, h⟩
  · unfold lineComment? at h
    split at h
    · cases h
      -- a line comment holds no line break and is followed by one
      refine .line rfl ?_ ?_ ht
      · intro hmem
        have := mem_span _ hmem
        simp at this
      · rw [hrest]
        exact head?_restOfLine
    · cases h
  · split at h
    · cases h
    · obtain ⟨body, htaken, hbody⟩ := blockBody_blockComment? h
      rw [htaken]
      exact .block rfl hbody ht

/-- Blanks and comments that are skipped in turn are one gap. -/
theorem gap_spacing (inEscape : Bool) (s : Text) :
    Gap true (spacing inEscape s).rest (spacing inEscape s).taken := by
  fun_induction spacing inEscape s with
  | case1 s blank _ =>
    have hgap : Gap true blank.rest (blank.taken ++ []) := gap_of_spaces mem_span .nil
    rwa [List.append_nil] at hgap
  | case2 s blank c h ih =>
    rw [Cut.taken_prepend, Cut.rest_prepend, List.append_assoc]
    exact gap_of_spaces mem_span (gap_skippedComment? h (whole_spacing inEscape c.rest) ih)

/-- What is skipped before a token is a gap. -/
theorem gap_skip (mode : Mode) (s : Text) :
    Gap (mode ≠ .between) (skip mode s).rest (skip mode s).taken := by
  cases mode with
  | between =>
    have hgap : Gap false (skip .between s).rest ((skip .between s).taken ++ []) :=
      gap_of_blanks mem_span .nil
    rwa [List.append_nil] at hgap
  | inside => exact gap_spacing false s
  | escape => exact gap_spacing true s

end SqlStubs.Lexer
