import SqlStubs.Proofs.Lexer.Gap
import SqlStubs.Proofs.Lexer.Reached

/-!
# Nothing of a source is lost

`tokens_lossless`: the tokens of a source stand for parts of it that do not overlap and follow one
another, and what lies between two of them, before the first or after the last is a gap.  Each token
shows the bytes that it stands for, but for one that never ends, which stands for all the rest.

The invariant is `Tiles`: from some place on, a source is a gap, a token, a gap, and so on to its
end.  One token more is one gap and one token more, and the place after them is again one that the
lexer has reached.
-/

namespace SqlStubs.Lexer

/-! ### Spans -/

/-- The bytes of a text from one place up to another. -/
def slice (s : Text) (i j : Nat) : Text := (s.drop i).take (j - i)

/-- The place after the last byte that a token stands for: a token that never ends stands for all
bytes from its place on, any other for as many as it shows. -/
def spanEnd (source : Text) (t : Token) : Nat :=
  match t.kind with
  | .illegal (.unclosed _) => source.length
  | _ => t.location.offset + t.literal.length

/-- A token shows the bytes of the source at its place, and at least one.  What cannot be read shows
one byte, or tells what it is that never ends. -/
def Shows (source : Text) (t : Token) : Prop :=
  match t.kind with
  | .eof => False
  | .illegal .byte => ∃ b, t.literal = [b] ∧ source[t.location.offset]? = some b
  | .illegal (.unclosed what) => t.literal = what.message
  | _ => t.literal ≠ [] ∧
      slice source t.location.offset (t.location.offset + t.literal.length) = t.literal

/-- From the place `pos` on, the source is a gap, a token, a gap, and so on to its end. -/
inductive Tiles (source : Text) : (inside : Bool) → (pos : Nat) → List Token → Prop
  | nil {inside : Bool} {pos : Nat} (hpos : pos ≤ source.length)
      (gap : Gap inside [] (slice source pos source.length)) : Tiles source inside pos []
  | cons {inside : Bool} {pos : Nat} {t : Token} {ts : List Token} (hpos : pos ≤ t.location.offset)
      (gap : Gap inside (source.drop t.location.offset) (slice source pos t.location.offset))
      (shows_ : Shows source t) (hspan : t.location.offset < spanEnd source t)
      (others : Tiles source t.kind.leavesInside (spanEnd source t) ts) :
      Tiles source inside pos (t :: ts)

/-- A part of a text that is given as three parts. -/
theorem slice_append (s t u : Text) : slice (s ++ (t ++ u)) s.length (s.length + t.length) = t := by
  simp [slice]

/-- What may stand between statements may stand inside a statement too. -/
theorem Gap.mono {inside inside' : Bool} {rest s : Text} (h : Gap inside rest s)
    (himp : inside = true → inside' = true) : Gap inside' rest s := by
  induction h with
  | nil => exact .nil
  | blank hb _ ih => exact .blank hb ih
  | newline hinside _ ih => exact .newline (himp hinside) ih
  | line hinside hc ends _ ih => exact .line (himp hinside) hc ends ih
  | block hinside hc _ ih => exact .block (himp hinside) hc ih

/-- A token that ends is shown by its bytes. -/
theorem literal_eq_text {t : Token} (h : ∀ what, t.kind ≠ .illegal (.unclosed what)) :
    t.literal = t.text := by
  unfold Token.literal
  split
  · rename_i what hkind
    exact absurd hkind (h what)
  · rfl

section Span

variable {source before : Text} {t : Token} {r : Reading}

/-- A token that was read at a place shows the bytes that are there. -/
theorem shows_of_sane (hr : r.Sane) (hkind : t.kind = r.kind) (htext : t.text = r.text)
    (hne : r.text ≠ []) (hoffset : t.location.offset = before.length)
    (hsource : source = before ++ (r.text ++ r.rest)) : Shows source t := by
  unfold Shows
  split
  · rename_i heof
    exact hr.kind_ne_eof (hkind.symm.trans heof)
  · rename_i hbyte
    obtain ⟨b, hb⟩ := hr.byte (hkind.symm.trans hbyte)
    refine ⟨b, ?_, ?_⟩
    · rw [literal_eq_text (by simp [hbyte]), htext, hb]
    · rw [hoffset, hsource, hb]
      simp
  · rename_i what hwhat
    unfold Token.literal
    rw [hwhat]
  · rename_i hunclosed
    have hliteral : t.literal = r.text := by
      rw [literal_eq_text hunclosed, htext]
    rw [hliteral, hoffset, hsource]
    exact ⟨hne, slice_append before r.text r.rest⟩

/-- The span of a token ends where its bytes end; of a token without an end, with the source. -/
theorem spanEnd_of_sane (hr : r.Sane) (hkind : t.kind = r.kind) (htext : t.text = r.text)
    (hoffset : t.location.offset = before.length)
    (hsource : source = before ++ (r.text ++ r.rest)) :
    spanEnd source t = before.length + r.text.length := by
  unfold spanEnd
  split
  · rename_i what hwhat
    have hrest := hr.unclosed what (hkind.symm.trans hwhat)
    rw [hsource, hrest, List.append_nil, List.length_append]
  · rename_i hunclosed
    rw [literal_eq_text hunclosed, htext, hoffset]

end Span

/-- The tokens that a lexer gives from some place on tile the source from there. -/
theorem tiles_toEnd {source before : Text} {inside : Bool} {l : Lexer}
    (h : Reached source before l) (hinside : l.mode ≠ .between → inside = true) :
    Tiles source inside before.length l.toEnd.1.pending := by
  fun_induction Lexer.toEnd l generalizing before inside with
  | case1 l step =>
    rename_i heof
    -- at the end, all that is left is one gap
    have hrest : (skip l.mode l.rest).rest = [] := skip_rest_eq_nil heof
    have hgap : Gap inside (skip l.mode l.rest).rest (skip l.mode l.rest).taken :=
      (gap_skip l.mode l.rest).mono (by simpa using hinside)
    have hwhole := whole_skip l.mode l.rest
    rw [Cut.whole, hrest, List.append_nil] at hwhole
    rw [hrest, hwhole] at hgap
    refine .nil (by simp [h.source_eq]) ?_
    simpa [slice, h.source_eq] using hgap
  | case2 l step hne ts last heq =>
    rename_i ih
    -- one gap and one token, and the induction hypothesis from the place after them
    let gap := skip l.mode l.rest
    let r := read l.mode gap.rest
    have hrest : gap.rest ≠ [] := skip_rest_ne_nil hne
    have hsane : r.Sane := sane_read hrest
    have htext : r.text ≠ [] := text_read hrest
    have hoffset : step.1.location.offset = (before ++ gap.taken).length := h.next_offset hne
    have hnext : Reached source (before ++ gap.taken ++ r.text) step.2 := h.next hne
    have hsource : source = (before ++ gap.taken) ++ (r.text ++ r.rest) := by
      rw [← List.append_assoc]
      exact hnext.source_eq
    have hspan : spanEnd source step.1 = (before ++ gap.taken).length + r.text.length :=
      spanEnd_of_sane hsane rfl rfl hoffset hsource
    refine .cons ?_ ?_ (shows_of_sane hsane rfl rfl htext hoffset hsource) ?_ ?_
    · rw [hoffset, List.length_append]
      omega
    · have hgap : Gap inside gap.rest gap.taken :=
        (gap_skip l.mode l.rest).mono (by simpa using hinside)
      have hread : r.text ++ r.rest = gap.rest := whole_read l.mode gap.rest
      rw [hoffset, hsource, List.drop_left, hread, List.append_assoc, List.length_append,
        slice_append]
      exact hgap
    · have := List.length_pos_iff.2 htext
      rw [hspan, hoffset]
      omega
    · -- the kind of the token tells the mode in which the next gap is skipped
      have hmode : step.2.mode ≠ .between → step.1.kind.leavesInside = true := by
        intro hmode
        cases hleaves : step.1.kind.leavesInside with
        | true => rfl
        | false => exact absurd (hsane.between hleaves) hmode
      have hothers := ih hnext hmode
      rw [heq, List.length_append, ← hspan] at hothers
      exact hothers

/-! ### What it means to tile a source -/

/-- Where the gap after some tokens begins: after the last of them, or at `pos`. -/
def gapStart (source : Text) (pos : Nat) (before : List Token) : Nat :=
  (before.getLast?.map (spanEnd source)).getD pos

/-- Where the gap before some tokens ends: at the first of them, or with the source. -/
def gapEnd (source : Text) (after : List Token) : Nat :=
  (after.head?.map (·.location.offset)).getD source.length

/-- Whether the gap after some tokens lies inside a statement, as their last one tells. -/
def gapInside (inside : Bool) (before : List Token) : Bool :=
  (before.getLast?.map (·.kind.leavesInside)).getD inside

@[simp] theorem gapStart_cons (source : Text) (pos : Nat) (t : Token) (before : List Token) :
    gapStart source pos (t :: before) = gapStart source (spanEnd source t) before := by
  unfold gapStart
  rw [List.getLast?_cons]
  cases before.getLast? <;> rfl

@[simp] theorem gapInside_cons (inside : Bool) (t : Token) (before : List Token) :
    gapInside inside (t :: before) = gapInside t.kind.leavesInside before := by
  unfold gapInside
  rw [List.getLast?_cons]
  cases before.getLast? <;> rfl

namespace Tiles

variable {source : Text} {inside : Bool} {pos : Nat} {toks : List Token}

/-- Tiles never reach past the end of the source. -/
theorem pos_le (h : Tiles source inside pos toks) : pos ≤ source.length := by
  induction h with
  | nil hpos => exact hpos
  | cons hpos _ _ hspan _ ih => omega

/-- No token begins before the place from which the source is tiled. -/
theorem offset_le (h : Tiles source inside pos toks) : ∀ t ∈ toks, pos ≤ t.location.offset := by
  induction h with
  | nil => simp
  | cons hpos _ _ hspan _ ih =>
    rw [List.forall_mem_cons]
    refine ⟨hpos, fun t ht => ?_⟩
    have := ih t ht
    omega

theorem span (h : Tiles source inside pos toks) : ∀ t ∈ toks, Shows source t ∧
    t.location.offset < spanEnd source t ∧ spanEnd source t ≤ source.length := by
  induction h with
  | nil => simp
  | cons _ _ hshows hspan others ih =>
    rw [List.forall_mem_cons]
    exact ⟨⟨hshows, hspan, others.pos_le⟩, ih⟩

/-- A token ends before any later one begins. -/
theorem pairwise (h : Tiles source inside pos toks) :
    toks.Pairwise fun t u => spanEnd source t ≤ u.location.offset := by
  induction h with
  | nil => exact .nil
  | cons _ _ _ _ others ih => exact .cons others.offset_le ih

/-- Later tokens have larger offsets. -/
theorem pairwise_offset (h : Tiles source inside pos toks) :
    toks.Pairwise fun t u => t.location.offset < u.location.offset :=
  h.pairwise.imp_of_mem fun ht _ hle => Nat.lt_of_lt_of_le (h.span _ ht).2.1 hle

/-- Between two tokens there is a gap, wherever the tokens are cut in two. -/
theorem gap_of_append {before after : List Token} (h : Tiles source inside pos (before ++ after)) :
    gapStart source pos before ≤ gapEnd source after ∧
      Gap (gapInside inside before) (source.drop (gapEnd source after))
        (slice source (gapStart source pos before) (gapEnd source after)) := by
  induction before generalizing inside pos with
  | nil =>
    -- the gap at the front ends with the source or at the first token
    cases after with
    | nil =>
      cases h with
      | nil hpos gap =>
        refine ⟨hpos, ?_⟩
        show Gap inside (source.drop source.length) (slice source pos source.length)
        rw [List.drop_length]
        exact gap
    | cons t after =>
      cases h with
      | cons hpos gap => exact ⟨hpos, gap⟩
  | cons t before ih =>
    cases h with
    | cons _ _ _ _ others =>
      rw [gapStart_cons, gapInside_cons]
      exact ih others

/-- A byte that no token stands for lies in a gap. -/
theorem exists_gap (h : Tiles source inside pos toks) {i : Nat} (hpos : pos ≤ i)
    (hi : i < source.length)
    (hout : ∀ t ∈ toks, ¬(t.location.offset ≤ i ∧ i < spanEnd source t)) :
    ∃ before after, toks = before ++ after ∧ gapStart source pos before ≤ i ∧
      i < gapEnd source after := by
  induction h with
  | nil => exact ⟨[], [], rfl, hpos, hi⟩
  | @cons inside pos t toks _ _ _ _ _ ih =>
    rw [List.forall_mem_cons] at hout
    -- the byte is in front of the first token or behind it
    by_cases hlt : i < t.location.offset
    · exact ⟨[], t :: toks, rfl, hpos, hlt⟩
    · obtain ⟨before, after, rfl, hstart, hend⟩ := ih (by omega) hout.2
      exact ⟨t :: before, after, rfl, by rwa [gapStart_cons], hend⟩

end Tiles

/-- The tokens of a source show the bytes that they stand for; these parts of the source follow one
another without overlap; between any two tokens, before the first and after the last there is a gap,
in which there are line breaks and comments only if the token before it leaves a statement open; and
every byte of the source that no token stands for lies in one of these gaps. -/
theorem tokens_lossless (source : Text) :
    let toks := (tokens source).pending
    (∀ t ∈ toks, Shows source t ∧ t.location.offset < spanEnd source t ∧
      spanEnd source t ≤ source.length) ∧
    toks.Pairwise (fun t u => spanEnd source t ≤ u.location.offset) ∧
    (∀ before after, toks = before ++ after →
      gapStart source 0 before ≤ gapEnd source after ∧
        Gap (gapInside false before) (source.drop (gapEnd source after))
          (slice source (gapStart source 0 before) (gapEnd source after))) ∧
    ∀ i < source.length, (∀ t ∈ toks, ¬(t.location.offset ≤ i ∧ i < spanEnd source t)) →
      ∃ before after, toks = before ++ after ∧ gapStart source 0 before ≤ i ∧
        i < gapEnd source after := by
  intro toks
  have htiles : Tiles source false 0 toks :=
    tiles_toEnd (reached_ofText source) (fun h => absurd rfl h)
  refine ⟨htiles.span, htiles.pairwise, fun before after hsplit => ?_, fun i hi hout => ?_⟩
  · rw [hsplit] at htiles
    exact htiles.gap_of_append
  · exact htiles.exists_gap (Nat.zero_le i) hi hout

end SqlStubs.Lexer
