import SqlStubs.Parser.Name
import SqlStubs.Proofs.Lexer.Position
import SqlStubs.Proofs.Lexer.Strings

/-!
# Quoted names

`unquote_tokens`: a name that is written between double quotes is read as one token and stands for
the name again, whatever bytes it has; and the other way round, every quoted name in a source is
written in the one way in which its name can be written.  A name without quotes and a keyword stand
for themselves.

Where a quoted name ends and what it stands for is found out by two functions that pair the double
quotes each in its own way.  They agree on what can stand between two quotes (`QuotedBody`): there
`undouble` and `doubled` are inverse to each other.
-/

namespace SqlStubs

/-- Whether a token of this kind is a word or a quoted name. -/
def Kind.isWord : Kind → Bool
  | .identifier | .keyword _ => true
  | _ => false

namespace Lexer

variable {s r body : Text} {mode : Mode}

/-! ### Doubled quotes -/

/-- A name between double quotes, with every double quote in it written twice. -/
def quotedName (s : Text) : Text := [0x22] ++ (doubled 0x22 s ++ [0x22])

theorem undouble_of_ne {b : UInt8} (hb : b ≠ 0x22) (s : Text) :
    undouble (b :: s) = b :: undouble s := by
  rw [undouble]
  rintro t rfl -
  exact hb rfl

/-- Doubling the quotes of a name is undone. -/
theorem undouble_doubled (s : Text) : undouble (doubled 0x22 s) = s := by
  induction s with
  | nil => rfl
  | cons b s ih =>
    rw [doubled, List.flatMap_cons]
    by_cases hb : b = 0x22
    · rw [if_pos hb, hb]
      show undouble (0x22 :: 0x22 :: doubled 0x22 s) = _
      rw [undouble, ih]
    · rw [if_neg hb]
      show undouble (b :: doubled 0x22 s) = _
      rw [undouble_of_ne hb, ih]

/-- In what can stand between quotes, undoing the doubling is undone as well. -/
theorem doubled_undouble (h : QuotedBody 0x22 false body) :
    doubled 0x22 (undouble body) = body := by
  induction h with
  | nil => rfl
  | @byte b body hb _ _ ih =>
    rw [undouble_of_ne hb, doubled, List.flatMap_cons, if_neg hb]
    exact congrArg (b :: ·) ih
  | @twice body _ ih =>
    rw [undouble, doubled, List.flatMap_cons, if_pos rfl]
    exact congrArg (0x22 :: 0x22 :: ·) ih
  | escaped h => cases h

/-- A quoted name stands for what is between its quotes. -/
theorem unquote_between (body : Text) : unquote ([0x22] ++ (body ++ [0x22])) = undouble body := by
  obtain ⟨b, t, ht⟩ := List.exists_cons_of_ne_nil (List.append_ne_nil_of_right_ne_nil body
    (List.cons_ne_nil 0x22 []))
  have hlast : (b :: t).dropLast = body := by rw [← ht, List.dropLast_concat]
  rw [ht, List.singleton_append, unquote, hlast]

/-- A name that is written with quotes stands for itself. -/
theorem unquote_quotedName (s : Text) : unquote (quotedName s) = s := by
  rw [quotedName, unquote_between, undouble_doubled]

/-- What does not begin with a quote is taken as it is. -/
theorem unquote_of_head?_ne (h : s.head? ≠ some 0x22) : unquote s = s := by
  unfold unquote
  split
  · exact absurd rfl h
  · rfl

/-! ### Names that are read -/

/-- A quoted name is read as one token, and the lexer goes on behind it. -/
theorem next_quotedName (hr : r.head? ≠ some 0x22) (here : Location) (mode : Mode) :
    next ⟨quotedName s ++ r, here, mode⟩ = (⟨.identifier, quotedName s, here⟩,
      ⟨r, here.after (quotedName s), mode.entered⟩) := by
  have hcloses : Closes 0x22 false (doubled 0x22 s ++ [0x22] ++ r) (doubled 0x22 s) r :=
    ⟨by rw [List.append_assoc, List.singleton_append], quotedBody_doubled 0x22 s, hr⟩
  -- the first byte is neither punctuation nor the start of a string, number or word
  have hread : readInside mode.entered (0x22 :: (doubled 0x22 s ++ [0x22] ++ r)) =
      .ofCut .identifier ⟨quotedName s, r⟩ mode.entered := by
    rw [readInside_eq_readMark rfl rfl rfl, readMark, closeDoubled?_of_closes hcloses]
    rfl
  have hbegins := next_of_beginsToken (b := 0x22) rfl here mode (doubled 0x22 s ++ [0x22] ++ r)
  rw [hread] at hbegins
  exact hbegins

/-- How a word or a quoted name stands in a source. -/
inductive NameText : Kind → Text → Prop
  | word {kind : Kind} {b : UInt8} {s : Text} (first : isNameStart b = true)
      (others : ∀ a ∈ s, isNameByte a = true) : NameText kind (b :: s)
  | quoted {body : Text} (h : QuotedBody 0x22 false body) :
      NameText .identifier ([0x22] ++ (body ++ [0x22]))

/-- What is read as a name is written as one. -/
def Reading.Spells (r : Reading) : Prop := r.kind.isWord = true → NameText r.kind r.text

theorem Reading.spells_of_not_isWord {r : Reading} (h : r.kind.isWord = false) : r.Spells := by
  intro hword
  rw [h] at hword
  cases hword

theorem spells_readString {opening whole : Text} {body? : Option Cut} :
    (readString opening body? whole mode).Spells := by
  unfold readString
  split <;> exact Reading.spells_of_not_isWord rfl

/-- The only mark that is read as a name is a quoted name. -/
theorem spells_readMark : (readMark mode s).Spells := by
  unfold readMark
  split
  · exact Reading.spells_of_not_isWord rfl
  · exact Reading.spells_of_not_isWord rfl
  · split <;> exact Reading.spells_of_not_isWord rfl
  · exact Reading.spells_of_not_isWord rfl
  · split <;> exact Reading.spells_of_not_isWord rfl
  · exact Reading.spells_of_not_isWord rfl
  · exact spells_readString
  · split
    · rename_i c hc
      obtain ⟨body, htaken, hcloses⟩ := exists_closes_of_closeDoubled? hc
      intro _
      show NameText .identifier ([0x22] ++ c.taken)
      rw [htaken]
      exact .quoted hcloses.body
    · exact Reading.spells_of_not_isWord rfl
  · unfold readDollar
    split
    · exact spells_readString
    · exact Reading.spells_of_not_isWord rfl
  · exact Reading.spells_of_not_isWord rfl
  · exact Reading.spells_of_not_isWord rfl

theorem isWord_punctuation? {b : UInt8} {kind : Kind} (h : punctuation? b = some kind) :
    kind.isWord = false := by
  unfold punctuation? at h
  split at h <;> cases h <;> rfl

theorem isWord_numberKind (s : Text) : (numberKind s).isWord = false := by
  unfold numberKind
  split <;> rfl

/-- Inside a statement, a name that is read is a word or stands between quotes. -/
theorem spells_readInside : (readInside mode s).Spells := by
  unfold readInside
  split
  · exact Reading.spells_of_not_isWord rfl
  · rename_i b rest
    split
    · rename_i kind hkind
      exact Reading.spells_of_not_isWord (isWord_punctuation? hkind)
    · split
      · exact spells_readString
      · split
        · exact Reading.spells_of_not_isWord (isWord_numberKind _)
        · split
          · rename_i hfirst
            intro _
            -- the first byte of a word is one that can go on with it
            have htaken : (Cut.span isNameByte (b :: rest)).taken =
                b :: rest.takeWhile isNameByte :=
              List.takeWhile_cons_of_pos (isNameByte_of_isNameStart hfirst)
            show NameText _ (Cut.span isNameByte (b :: rest)).taken
            rw [htaken]
            exact .word hfirst (mem_span (s := rest))
          · exact spells_readMark

/-- Nothing that is read in its own way between statements is a name. -/
theorem spells_readBetween? {r : Reading} (h : readBetween? s = some r) : r.Spells := by
  refine Reading.spells_of_not_isWord ?_
  unfold readBetween? at h
  split at h
  · cases h
    rfl
  · cases h
    rfl
  · cases h
    rfl
  · split at h <;> cases h <;> rfl
  · cases h

/-- In every mode, what is read as a name is written as one. -/
theorem spells_read : (read mode s).Spells := by
  unfold read
  split
  · cases hr : readBetween? s with
    | none => exact spells_readInside
    | some r => exact spells_readBetween? hr
  · exact spells_readInside

/-- Every word and every quoted name among the tokens of a source is written as one. -/
theorem nameText_take (source : Text) (n : Nat) :
    ∀ t ∈ take n (ofText source), t.kind.isWord = true → NameText t.kind t.text :=
  Reads.nil.forall_take (fun _ => spells_read) n

namespace NameText

variable {kind : Kind} {text : Text}

/-- What begins with a double quote is a quoted name, since no word does. -/
theorem exists_body (h : NameText kind text) (hquote : text.head? = some 0x22) :
    kind = .identifier ∧
      ∃ body, QuotedBody 0x22 false body ∧ text = [0x22] ++ (body ++ [0x22]) := by
  cases h with
  | word first others =>
    obtain rfl := Option.some.inj hquote
    cases first
  | quoted hbody => exact ⟨rfl, _, hbody, rfl⟩

/-- A quoted name is written in the only way there is. -/
theorem quotedName_unquote (h : NameText kind text) (hquote : text.head? = some 0x22) :
    quotedName (unquote text) = text := by
  obtain ⟨-, body, hbody, rfl⟩ := h.exists_body hquote
  rw [unquote_between, quotedName, doubled_undouble hbody]

end NameText

/-- Names are read as they are written.  Any text between double quotes, with those in it doubled,
is read as one name before whatever does not go on with a double quote, and stands for this text
again.  Every name in a source that begins with a double quote is written so, and every other name
and every keyword stands for itself. -/
theorem unquote_tokens :
    (∀ (here : Location) (mode : Mode) (s r : Text), r.head? ≠ some 0x22 →
      next ⟨quotedName s ++ r, here, mode⟩ = (⟨.identifier, quotedName s, here⟩,
        ⟨r, here.after (quotedName s), mode.entered⟩) ∧
      unquote (quotedName s) = s) ∧
    ∀ (source : Text) (n : Nat), ∀ t ∈ take n (ofText source),
      (t.kind = .identifier → t.text.head? = some 0x22 →
        quotedName (unquote t.text) = t.text) ∧
      (t.kind = .identifier → t.text.head? ≠ some 0x22 → unquote t.text = t.text) ∧
      ∀ k, t.kind = .keyword k → unquote t.text = t.text := by
  refine ⟨fun here mode s r hr => ⟨next_quotedName hr here mode, unquote_quotedName s⟩,
    fun source n t ht => ?_⟩
  have hname := nameText_take source n t ht
  refine ⟨fun hkind hquote => ?_, fun _ hquote => unquote_of_head?_ne hquote, fun k hkind => ?_⟩
  · rw [hkind] at hname
    exact (hname rfl).quotedName_unquote hquote
  · rw [hkind] at hname
    refine unquote_of_head?_ne fun hquote => ?_
    cases ((hname rfl).exists_body hquote).1

end Lexer

end SqlStubs
