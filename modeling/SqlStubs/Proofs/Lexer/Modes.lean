import Mathlib.Data.List.Chain
import SqlStubs.Proofs.Lexer.Reached

/-!
# The modes of a lexer, seen from its tokens

`take_modes`: comments and line breaks are tokens only where no statement is open; within a
statement the openers and closers of escapes take turns, beginning with an opener; after something
that never ends there is only the end; and the end stays the same however often it is asked for.

`ModeStep` says once what a token of each kind does to the mode.  Everything about the order of
tokens follows from it by induction on their number, since the mode before a token is the mode after
the one before it.
-/

namespace SqlStubs

/-- Whether a token of this kind is an opener or a closer of an escape. -/
def Kind.isEscapeMark (kind : Kind) : Bool := kind = .escapeOpen || kind = .escapeClose

/-- Whether no statement is open after a token of this kind, so that a comment or a line break may
come next. -/
def Kind.leavesBetween (kind : Kind) : Bool :=
  kind = .semicolon || kind = .comment || kind = .newline

namespace Lexer

/-! ### One token -/

/-- The mode after a token that belongs to a statement and is not special. -/
def Mode.entered : Mode → Mode
  | .between => .inside
  | mode => mode

/-- What a token does to the mode. -/
inductive ModeStep : (before : Mode) → Kind → (after : Mode) → Prop
  | comment : ModeStep .between .comment .between
  | newline : ModeStep .between .newline .between
  | semicolon {mode : Mode} : ModeStep mode .semicolon .between
  | escapeOpen {mode : Mode} (h : mode ≠ .escape) : ModeStep mode .escapeOpen .escape
  | escapeClose : ModeStep .escape .escapeClose .inside
  /-- A comment that never ends opens no statement. -/
  | unclosedComment : ModeStep .between (.illegal (.unclosed .comment)) .between
  | eof {mode : Mode} : ModeStep mode .eof mode
  | other {mode : Mode} {kind : Kind} (hmark : kind.isEscapeMark = false)
      (hbetween : kind.leavesBetween = false) (heof : kind ≠ .eof) :
      ModeStep mode kind mode.entered

/-- A token that can be read inside a statement can also begin one. -/
theorem ModeStep.between_of_inside {kind : Kind} {after : Mode} (h : ModeStep .inside kind after)
    (heof : kind ≠ .eof) : ModeStep .between kind after := by
  generalize hinside : Mode.inside = mode at h
  cases h with
  | comment | newline | escapeClose | unclosedComment => cases hinside
  | semicolon => exact .semicolon
  | escapeOpen => exact .escapeOpen (by decide)
  | eof => exact absurd rfl heof
  | other hmark hbetween heof =>
    subst hinside
    exact .other hmark hbetween heof

section ModeStep

variable {before after : Mode} {kind : Kind}

/-- Comments and line breaks are read between statements only. -/
theorem ModeStep.before_eq_between (h : ModeStep before kind after)
    (hkind : kind = .comment ∨ kind = .newline) : before = .between := by
  cases h with
  | comment | newline => rfl
  | other _ hbetween => rcases hkind with rfl | rfl <;> cases hbetween
  | semicolon | escapeOpen | escapeClose | unclosedComment | eof => simp at hkind

/-- After a semicolon, a comment or a line break no statement is open. -/
theorem ModeStep.after_eq_between (h : ModeStep before kind after)
    (hkind : kind.leavesBetween = true) : after = .between := by
  cases h with
  | comment | newline | semicolon => rfl
  | other _ hbetween => exact absurd hkind (by simp [hbetween])
  | escapeOpen | escapeClose | unclosedComment | eof => cases hkind

/-- No statement is open after a token that ends one or stands between two, and otherwise only where
the source ends. -/
theorem ModeStep.of_after_eq_between (h : ModeStep before kind after) (hafter : after = .between) :
    kind.leavesBetween = true ∨ kind = .eof ∨ kind = .illegal (.unclosed .comment) := by
  cases h with
  | comment | newline | semicolon => exact .inl rfl
  | eof => exact .inr (.inl rfl)
  | unclosedComment => exact .inr (.inr rfl)
  | escapeOpen | escapeClose => cases hafter
  | other => cases before <;> cases hafter

end ModeStep

/-- Inside a statement there is nothing to enter. -/
theorem entered_of_ne {mode : Mode} (h : mode ≠ .between) : mode.entered = mode := by
  cases mode with
  | between => exact absurd rfl h
  | inside | escape => rfl

section Read

variable {mode : Mode} {s : Text}

/-- A token that is not special leaves the mode inside a statement as it is. -/
theorem modeStep_other {kind : Kind} (hmode : mode ≠ .between) (hmark : kind.isEscapeMark = false)
    (hbetween : kind.leavesBetween = false) (heof : kind ≠ .eof) : ModeStep mode kind mode := by
  have hstep : ModeStep mode kind mode.entered := .other hmark hbetween heof
  rwa [entered_of_ne hmode] at hstep

theorem modeStep_readString {opening whole : Text} {body? : Option Cut} (hmode : mode ≠ .between) :
    ModeStep mode (readString opening body? whole mode).kind
      (readString opening body? whole mode).mode := by
  unfold readString
  split <;> exact modeStep_other hmode rfl rfl nofun

theorem modeStep_readDollar (hmode : mode ≠ .between) :
    ModeStep mode (readDollar s mode).kind (readDollar s mode).mode := by
  unfold readDollar
  split
  · exact modeStep_readString hmode
  · exact modeStep_other hmode rfl rfl nofun

/-- Of all marks, the semicolon and the marks of escapes change the mode. -/
theorem modeStep_readMark (hmode : mode ≠ .between) :
    ModeStep mode (readMark mode s).kind (readMark mode s).mode := by
  unfold readMark
  split
  · exact .semicolon
  · exact modeStep_other hmode rfl rfl nofun
  · split
    -- `*/` closes an escape only where one is open
    · rename_i hescape
      rw [hescape]
      exact .escapeClose
    · exact modeStep_other hmode rfl rfl nofun
  · exact modeStep_other hmode rfl rfl nofun
  · split
    · rename_i hopen
      exact .escapeOpen hopen.1
    · exact modeStep_other hmode rfl rfl nofun
  · exact modeStep_other hmode rfl rfl nofun
  · exact modeStep_readString hmode
  · split <;> exact modeStep_other hmode rfl rfl nofun
  · exact modeStep_readDollar hmode
  · exact modeStep_other hmode rfl rfl nofun
  · exact .eof

/-- The kinds of tokens of which nothing has to be told, other than the marks of escapes. -/
theorem modeStep_of_isPlain {kind : Kind} (hmode : mode ≠ .between) (hplain : isPlain kind = true)
    (hmark : kind.isEscapeMark = false) : ModeStep mode kind mode := by
  refine modeStep_other hmode hmark ?_ ?_
  · cases kind <;> first | rfl | cases hplain
  · rintro rfl
    cases hplain

theorem isEscapeMark_punctuation? {b : UInt8} {kind : Kind} (h : punctuation? b = some kind) :
    kind.isEscapeMark = false := by
  unfold punctuation? at h
  split at h <;> cases h <;> rfl

theorem isEscapeMark_wordKind (s : Text) : (wordKind s).isEscapeMark = false := by
  unfold wordKind
  split <;> rfl

theorem isEscapeMark_numberKind (s : Text) : (numberKind s).isEscapeMark = false := by
  unfold numberKind
  split <;> rfl

/-- What a token inside a statement does to the mode. -/
theorem modeStep_readInside (hmode : mode ≠ .between) :
    ModeStep mode (readInside mode s).kind (readInside mode s).mode := by
  unfold readInside
  split
  · exact .eof
  · split
    · rename_i kind hkind
      exact modeStep_of_isPlain hmode (isPlain_punctuation? hkind) (isEscapeMark_punctuation? hkind)
    · split
      · exact modeStep_readString hmode
      · split
        · exact modeStep_of_isPlain hmode (isPlain_numberKind _) (isEscapeMark_numberKind _)
        · split
          · exact modeStep_of_isPlain hmode (isPlain_wordKind _) (isEscapeMark_wordKind _)
          · exact modeStep_readMark hmode

theorem modeStep_readBetween? {r : Reading} (h : readBetween? s = some r) :
    ModeStep .between r.kind r.mode := by
  unfold readBetween? at h
  split at h
  · cases h
    exact .eof
  · cases h
    exact .newline
  · cases h
    exact .comment
  · split at h
    · cases h
      exact .comment
    · cases h
      exact .unclosedComment
  · cases h

/-- In every mode, the token that is read does to the mode what its kind says. -/
theorem modeStep_read (mode : Mode) (s : Text) :
    ModeStep mode (read mode s).kind (read mode s).mode := by
  cases mode with
  | inside | escape => exact modeStep_readInside (by decide)
  | between =>
    show ModeStep .between ((readBetween? s).getD _).kind ((readBetween? s).getD _).mode
    cases hr : readBetween? s with
    | some r => exact modeStep_readBetween? hr
    | none =>
      -- the end is read between statements as well, so something is left here
      have hs : s ≠ [] := by
        rintro rfl
        cases hr
      exact (modeStep_readInside (by decide)).between_of_inside (sane_readInside hs).kind_ne_eof

end Read

/-- What the next token does to the mode of a lexer. -/
theorem modeStep_next (l : Lexer) : ModeStep l.mode l.next.1.kind l.next.2.mode :=
  modeStep_read l.mode _

/-! ### The end -/

/-- At the end of the source, the end is given and nothing changes. -/
theorem next_of_rest_eq_nil {l : Lexer} (h : l.rest = []) : l.next = (⟨.eof, [], l.here⟩, l) := by
  obtain ⟨rest, here, mode⟩ := l
  obtain rfl : rest = [] := h
  -- where nothing is left, nothing is skipped
  have hgap : skip mode [] = ⟨[], []⟩ := by
    have hwhole := whole_skip mode []
    rw [Cut.whole, List.append_eq_nil_iff] at hwhole
    obtain ⟨htaken, hrest⟩ := hwhole
    exact congrArg₂ Cut.mk htaken hrest
  simp only [next, hgap, read_nil]
  rfl

/-- At the end, any number of tokens are that many ends. -/
theorem take_of_rest_eq_nil {l : Lexer} (h : l.rest = []) (n : Nat) :
    take n l = List.replicate n ⟨.eof, [], l.here⟩ := by
  induction n with
  | zero => rfl
  | succ n ih =>
    rw [List.replicate_succ, ← ih]
    show l.next.1 :: take n l.next.2 = _
    rw [next_of_rest_eq_nil h]

/-- After the end the same end is given again. -/
theorem eq_of_mem_take_of_eof {l : Lexer} {n : Nat} (h : l.next.1.kind = .eof) :
    ∀ t ∈ take n l.next.2, t = l.next.1 := by
  have hrest := skip_rest_eq_nil h
  have hnext : l.next = (⟨.eof, [], l.here.after (skip l.mode l.rest).taken⟩,
      ⟨[], l.here.after (skip l.mode l.rest).taken, l.mode⟩) := by
    simp only [next, hrest, read_nil]
    rfl
  intro t ht
  rw [hnext] at ht ⊢
  rw [take_of_rest_eq_nil rfl] at ht
  exact List.eq_of_mem_replicate ht

/-- A token that tells what it is that never ends. -/
def tellsUnclosed (t : Token) : Prop :=
  (∃ fault, t.kind = .illegal fault) ∧ ∃ what : Unclosed, t.literal = what.message

/-- A byte that begins nothing tells nothing of the kind. -/
theorem exists_unclosed_of_tells {l : Lexer} (h : tellsUnclosed l.next.1) :
    ∃ what, l.next.1.kind = .illegal (.unclosed what) := by
  obtain ⟨⟨fault, hfault⟩, what, hliteral⟩ := h
  cases fault with
  | unclosed what => exact ⟨what, hfault⟩
  | byte =>
    have hne : l.next.1.kind ≠ .eof := by
      rw [hfault]
      nofun
    obtain ⟨b, hb⟩ := (sane_read (skip_rest_ne_nil hne)).byte hfault
    have htext : l.next.1.literal = [b] := by
      rw [Token.literal, hfault]
      exact hb
    rw [htext] at hliteral
    -- no message is of one byte
    have hlong : what.message.length ≠ 1 := by cases what <;> decide
    exact absurd (congrArg List.length hliteral).symm hlong

/-- After something that never ends nothing is left but the end. -/
theorem kind_eq_eof_of_mem_take {l : Lexer} {n : Nat} (h : tellsUnclosed l.next.1) :
    ∀ t ∈ take n l.next.2, t.kind = .eof := by
  obtain ⟨what, hkind⟩ := exists_unclosed_of_tells h
  have hne : l.next.1.kind ≠ .eof := by
    rw [hkind]
    nofun
  have hrest : l.next.2.rest = [] := (sane_read (skip_rest_ne_nil hne)).unclosed what hkind
  intro t ht
  rw [take_of_rest_eq_nil hrest] at ht
  rw [List.eq_of_mem_replicate ht]

/-! ### Comments and line breaks -/

/-- A comment or a line break is read only after a token that leaves no statement open. -/
theorem leavesBetween_of_next_next {l : Lexer}
    (h : l.next.2.next.1.kind = .comment ∨ l.next.2.next.1.kind = .newline) :
    l.next.1.kind.leavesBetween = true := by
  have hmode : l.next.2.mode = .between := (modeStep_next l.next.2).before_eq_between h
  -- nothing but the end could follow the end or something that never ends
  have hrest : l.next.2.rest ≠ [] := by
    intro hnil
    rw [next_of_rest_eq_nil hnil] at h
    rcases h with h | h <;> cases h
  rcases (modeStep_next l).of_after_eq_between hmode with hkind | heof | hunclosed
  · exact hkind
  · have hnil : l.next.2.rest = [] := by
      show (read l.mode (skip l.mode l.rest).rest).rest = []
      rw [skip_rest_eq_nil heof, read_nil]
      rfl
    exact absurd hnil hrest
  · have hne : l.next.1.kind ≠ .eof := by
      rw [hunclosed]
      nofun
    exact absurd ((sane_read (skip_rest_ne_nil hne)).unclosed .comment hunclosed) hrest

/-- What comes right before a comment or a line break, for any number of tokens. -/
theorem isChain_take (n : Nat) (l : Lexer) :
    (take n l).IsChain fun t u =>
      u.kind = .comment ∨ u.kind = .newline → t.kind.leavesBetween = true := by
  induction n generalizing l with
  | zero => exact .nil
  | succ n ih =>
    show List.IsChain _ (l.next.1 :: take n l.next.2)
    refine (ih l.next.2).cons fun u hu h => ?_
    cases n with
    | zero => cases hu
    | succ n =>
      obtain rfl : l.next.2.next.1 = u := Option.some.inj hu
      exact leavesBetween_of_next_next h

/-! ### Escapes -/

/-- The openers and closers of escapes among some tokens. -/
def escapeMarks (w : List Token) : List Kind := (w.map (·.kind)).filter (·.isEscapeMark)

/-- Openers and closers take turns, and the first is `first`. -/
def Alternates (first : Kind) (marks : List Kind) : Prop :=
  marks.IsChain (· ≠ ·) ∧ ∀ mark ∈ marks.head?, mark = first

/-- A mark in front of marks that begin with the other one. -/
theorem Alternates.cons {first second : Kind} {marks : List Kind} (h : Alternates second marks)
    (hne : first ≠ second) : Alternates first (first :: marks) := by
  refine ⟨h.1.cons fun mark hmark => ?_, fun mark hmark => (Option.some.inj hmark).symm⟩
  rw [h.2 mark hmark]
  exact hne

/-- The mark with which the marks go on: a closer if an escape is open. -/
def Mode.nextMark : Mode → Kind
  | .escape => .escapeClose
  | .between | .inside => .escapeOpen

/-- A mark is the one with which the marks go on, and the next is the other one. -/
theorem ModeStep.of_isEscapeMark {before after : Mode} {kind : Kind}
    (h : ModeStep before kind after) (hmark : kind.isEscapeMark = true) :
    kind = before.nextMark ∧ kind ≠ after.nextMark := by
  cases h with
  | escapeOpen hne =>
    refine ⟨?_, by decide⟩
    cases before with
    | escape => exact absurd rfl hne
    | between | inside => rfl
  | escapeClose => exact ⟨rfl, by decide⟩
  | other hother => exact absurd hmark (by simp [hother])
  | comment | newline | semicolon | unclosedComment | eof => cases hmark

/-- Other tokens of a statement change nothing about the next mark. -/
theorem ModeStep.nextMark_eq {before after : Mode} {kind : Kind} (h : ModeStep before kind after)
    (hmark : kind.isEscapeMark = false) (hbetween : kind.leavesBetween = false) :
    after.nextMark = before.nextMark := by
  cases h with
  | other => cases before <;> rfl
  | unclosedComment | eof => rfl
  | escapeOpen | escapeClose => cases hmark
  | comment | newline | semicolon => cases hbetween

/-- As long as a statement goes on, the marks in it take turns. -/
theorem alternates_of_prefix {n : Nat} {l : Lexer} {run : List Token} (h : run <+: take n l)
    (hrun : ∀ t ∈ run, t.kind.leavesBetween = false) :
    Alternates l.mode.nextMark (escapeMarks run) := by
  -- on the tokens; the mode of the lexer tells which mark has to come next
  induction run generalizing n l with
  | nil => exact ⟨.nil, nofun⟩
  | cons t run ih =>
    cases n with
    | zero => exact absurd h (by simp [take])
    | succ n =>
      have hcons : t :: run <+: l.next.1 :: take n l.next.2 := h
      rw [List.cons_prefix_cons] at hcons
      obtain ⟨rfl, hprefix⟩ := hcons
      rw [List.forall_mem_cons] at hrun
      have hothers := ih hprefix hrun.2
      have hstep := modeStep_next l
      unfold escapeMarks at hothers ⊢
      rw [List.map_cons]
      by_cases hmark : l.next.1.kind.isEscapeMark = true
      · rw [List.filter_cons_of_pos hmark]
        obtain ⟨hkind, hne⟩ := hstep.of_isEscapeMark hmark
        rw [← hkind]
        exact hothers.cons hne
      · rw [List.filter_cons_of_neg hmark]
        rwa [hstep.nextMark_eq (by simpa using hmark) hrun.1] at hothers

/-- From a place where no statement is open, the marks begin with an opener. -/
theorem alternates_of_append {n : Nat} {l : Lexer} {before run after : List Token}
    (h : take n l = before ++ run ++ after) (hl : before = [] → l.mode = .between)
    (hbefore : ∀ t ∈ before.getLast?, t.kind.leavesBetween = true)
    (hrun : ∀ t ∈ run, t.kind.leavesBetween = false) :
    Alternates .escapeOpen (escapeMarks run) := by
  -- on the tokens before the run, of which only the last one counts
  induction before generalizing n l with
  | nil =>
    have hprefix : run <+: take n l := ⟨after, h.symm⟩
    have halternates := alternates_of_prefix hprefix hrun
    rwa [hl rfl] at halternates
  | cons t before ih =>
    cases n with
    | zero => cases h
    | succ n =>
      have hcons : l.next.1 :: take n l.next.2 = t :: (before ++ run ++ after) := h
      obtain ⟨rfl, hothers⟩ := List.cons.inj hcons
      refine ih hothers ?_ fun u hu => hbefore u ?_
      · rintro rfl
        exact (modeStep_next l).after_eq_between (hbefore l.next.1 rfl)
      · rw [List.getLast?_cons, Option.mem_def.1 hu]
        rfl

/-! ### All tokens -/

/-- What comes after something that never ends and after the end, at any distance. -/
theorem pairwise_take (n : Nat) (l : Lexer) :
    (take n l).Pairwise fun t u =>
      (tellsUnclosed t → u.kind = .eof) ∧ (t.kind = .eof → u = t) := by
  induction n generalizing l with
  | zero => exact .nil
  | succ n ih =>
    show List.Pairwise _ (l.next.1 :: take n l.next.2)
    refine .cons (fun u hu => ⟨fun h => ?_, fun h => ?_⟩) (ih l.next.2)
    · exact kind_eq_eof_of_mem_take h u hu
    · exact eq_of_mem_take_of_eof h u hu

/-- The tokens that a lexer gives, as many as it is asked for.  A comment or a line break comes
first, or right after a semicolon, a comment or a line break.  From such a place up to the next one
the openers and closers of escapes take turns beginning with an opener, so that a semicolon ends an
escape that is open.  After a token that tells what it is that never ends there is only the end, and
after the end only the same end. -/
theorem take_modes (source : Text) (n : Nat) :
    let ts := take n (ofText source)
    (ts.IsChain fun t u => u.kind = .comment ∨ u.kind = .newline → t.kind.leavesBetween = true) ∧
    (∀ before run after, ts = before ++ run ++ after →
      (∀ t ∈ before.getLast?, t.kind.leavesBetween = true) →
      (∀ t ∈ run, t.kind.leavesBetween = false) → Alternates .escapeOpen (escapeMarks run)) ∧
    (ts.Pairwise fun t u => tellsUnclosed t → u.kind = .eof) ∧
    (ts.Pairwise fun t u => t.kind = .eof → u = t) := by
  intro ts
  have hpairwise := pairwise_take n (ofText source)
  refine ⟨isChain_take n (ofText source), ?_, hpairwise.imp And.left, hpairwise.imp And.right⟩
  intro before run after hts hbefore hrun
  exact alternates_of_append hts (fun _ => rfl) hbefore hrun

end Lexer

end SqlStubs
