import SqlStubs.Lexer.Cut

/-!
# Quotations

The three ways to quote: between two delimiters, with a delimiter inside written twice; between
apostrophes after `E`, where a backslash also keeps the byte after it from ending the string; and
between two dollar delimiters `$tag$`, with nothing escaped.  Each reader is given the text after
the opening delimiter and goes through the closing one.
-/

namespace SqlStubs.Lexer

/-- The text through the `delimiter` that closes a quotation in which a delimiter is written
twice. -/
def closeDoubled? (delimiter : UInt8) : Text → Option Cut
  | [] => none
  | [a] => if a = delimiter then some ⟨[a], []⟩ else none
  | a :: b :: s =>
    if a = delimiter then
      if b = delimiter then (closeDoubled? delimiter s).map (·.prepend [a, b])
      else some ⟨[a], b :: s⟩
    else (closeDoubled? delimiter (b :: s)).map (·.prepend [a])

/-- The text through the apostrophe that closes a string in which a backslash escapes. -/
def closeEscaped? : Text → Option Cut
  | [] => none
  | [0x5C] => none
  | 0x5C :: b :: s => (closeEscaped? s).map (·.prepend [0x5C, b])
  | 0x27 :: 0x27 :: s => (closeEscaped? s).map (·.prepend [0x27, 0x27])
  | 0x27 :: s => some ⟨[0x27], s⟩
  | b :: s => (closeEscaped? s).map (·.prepend [b])

/-- Whether the last byte of an unclosed string is a backslash with nothing left to escape.  The
reader then steps over a byte that is not there. -/
def escapesPastEnd : Text → Bool
  | [] => false
  | [0x5C] => true
  | 0x5C :: _ :: s => escapesPastEnd s
  | _ :: s => escapesPastEnd s

/-- A byte of a name: a letter, a digit, `_`, `$` or any byte outside ASCII. -/
def isNameByte (b : UInt8) : Bool :=
  Text.isUpper b || Text.isLower b || Text.isDigit b || b = 0x5F || b = 0x24 || 0x80 ≤ b

/-- A byte that can begin a name. -/
def isNameStart (b : UInt8) : Bool :=
  Text.isUpper b || Text.isLower b || b = 0x5F || 0x80 ≤ b

/-- A byte of the tag of a dollar delimiter. -/
def isTagByte (b : UInt8) : Bool := isNameByte b && b ≠ 0x24

/-- The dollar delimiter at the front of a text: `$`, a tag that does not begin with a digit, and
`$`. -/
def dollarDelimiter? : Text → Option Cut
  | 0x24 :: s =>
    let tag := Cut.span isTagByte s
    match tag.rest with
    | 0x24 :: rest =>
      if tag.taken.head?.any Text.isDigit then none
      else some ⟨0x24 :: tag.taken ++ [0x24], rest⟩
    | _ => none
  | _ => none

/-- The text through the first occurrence of a delimiter. -/
def closeDelimiter? (delimiter : Text) (s : Text) : Option Cut :=
  (Text.splitAtFirst? delimiter s).map fun (before, after) => ⟨before ++ delimiter, after⟩

/-! ### Nothing is lost -/

/-- A quotation is read through its end and not further. -/
theorem whole_closeDoubled? {delimiter : UInt8} {s : Text} {c : Cut}
    (h : closeDoubled? delimiter s = some c) : c.whole = s := by
  fun_induction closeDoubled? delimiter s generalizing c with
  | case1 => cases h
  | case2 => cases h; rfl
  | case3 => cases h
  -- two delimiters go over to the part taken together
  | case4 s ih =>
    obtain ⟨d, hd, rfl⟩ := Option.map_eq_some_iff.1 h
    simp [ih hd]
  | case5 b s _ => cases h; rfl
  | case6 a b s _ ih =>
    obtain ⟨d, hd, rfl⟩ := Option.map_eq_some_iff.1 h
    simp [ih hd]

theorem whole_closeEscaped? {s : Text} {c : Cut} (h : closeEscaped? s = some c) : c.whole = s := by
  fun_induction closeEscaped? s generalizing c with
  | case1 | case2 => cases h
  | case5 => cases h; rfl
  | case3 | case4 | case6 =>
    rename_i ih
    obtain ⟨d, hd, rfl⟩ := Option.map_eq_some_iff.1 h
    simp [ih hd]

/-- The two dollar signs and the tag between them are the front of the text. -/
theorem whole_dollarDelimiter? {s : Text} {c : Cut} (h : dollarDelimiter? s = some c) :
    c.whole = s := by
  unfold dollarDelimiter? at h
  split at h
  · rename_i t
    simp only at h
    split at h
    · rename_i rest hr
      split at h
      · cases h
      · cases h
        -- the tag ends at a byte that cannot be part of it, and that is the second dollar sign
        have whole := Cut.whole_span isTagByte t
        rw [Cut.whole, hr] at whole
        rw [Cut.whole_mk, List.cons_append, List.cons_append, List.append_assoc,
          List.singleton_append, whole]
    · cases h
  · cases h

/-- A text is what stands before an occurrence of the mark, the mark, and what stands after it. -/
theorem splitAtFirst?_eq {mark s before after : Text}
    (h : Text.splitAtFirst? mark s = some (before, after)) : before ++ mark ++ after = s := by
  fun_induction Text.splitAtFirst? mark s generalizing before after with
  | case1 hm => cases h; simpa using hm
  | case2 => cases h
  | case3 b s hm =>
    cases h
    obtain ⟨t, ht⟩ := List.isPrefixOf_iff_prefix.1 hm
    simp [← ht]
  | case4 b s _ ih =>
    obtain ⟨⟨x, y⟩, hd, he⟩ := Option.map_eq_some_iff.1 h
    cases he
    simp [← ih hd]

theorem whole_closeDelimiter? {delimiter s : Text} {c : Cut}
    (h : closeDelimiter? delimiter s = some c) : c.whole = s := by
  obtain ⟨⟨x, y⟩, hd, rfl⟩ := Option.map_eq_some_iff.1 h
  exact splitAtFirst?_eq hd

end SqlStubs.Lexer
