import SqlStubs.Flags

/-!
# Only flags that a command has are set

What an argument says is about flags of the command (`readGroup_among`, `readLong_among`), and so no
other name has a value when all arguments are read (`get?_ofList_of_unknown`).
-/

namespace SqlStubs

variable {flags : List Flag}

namespace Flags

/-- All that an argument says is about some flags. -/
structure Reading.Among (flags : List Flag) (r : Reading) : Prop where
  set : ∀ setting ∈ r.set, setting.1 ∈ flags
  wants : ∀ wanted ∈ r.wants, wanted.1 ∈ flags

theorem Reading.Among.of_set {f : Flag} (hf : f ∈ flags) (s : Text) :
    Reading.Among flags { set := [(f, s)] } := by
  constructor
  · simpa using hf
  · simp

theorem Reading.Among.of_wants {f : Flag} (hf : f ∈ flags) (fault : FlagFault) :
    Reading.Among flags { wants := some (f, fault) } := by
  constructor
  · simp
  · simpa using hf

/-- Each letter of a group is that of a flag of the command. -/
theorem readGroup_among {s : Text} {r : Reading} (h : readGroup flags s = .ok r) :
    r.Among flags := by
  fun_induction readGroup flags s generalizing r with
  | case1 | case2 =>
    cases h
    exact ⟨by simp, by simp⟩
  | case3 | case4 => cases h
  | case5 letter rest _ f hf =>
    cases h
    exact .of_set (List.mem_of_find?_eq_some hf) _
  | case6 letter rest _ f hf _ _ ih =>
    -- a flag without a value, and the letters after it are read on their own
    obtain ⟨r', hr', rfl⟩ : ∃ r', readGroup flags rest = .ok r' ∧
        r = { r' with set := (f, Flag.trueText) :: r'.set } := by
      cases hrest : readGroup flags rest with
      | error => rw [hrest] at h; cases h
      | ok r' => rw [hrest] at h; exact ⟨r', rfl, (Except.ok.inj h).symm⟩
    have hamong := ih hr'
    refine ⟨?_, hamong.wants⟩
    rw [List.forall_mem_cons]
    exact ⟨List.mem_of_find?_eq_some hf, hamong.set⟩
  | case7 letter rest _ f hf =>
    cases h
    exact .of_set (List.mem_of_find?_eq_some hf) _
  | case8 letter rest _ f hf =>
    cases h
    exact .of_wants (List.mem_of_find?_eq_some hf) _

/-- A long name is that of a flag of the command. -/
theorem readLong_among {s : Text} {r : Reading} (h : readLong flags s = .ok r) : r.Among flags := by
  unfold readLong at h
  split at h
  · cases h
  · dsimp only at h
    split at h
    · split at h <;> cases h
    · rename_i f _ _ hf _
      cases h
      exact .of_set (List.mem_of_find?_eq_some hf) _
    · rename_i f hf _
      split at h
      · cases h
        exact .of_set (List.mem_of_find?_eq_some hf) _
      · cases h
        exact .of_wants (List.mem_of_find?_eq_some hf) _

/-- What an argument that begins with a dash says. -/
theorem read_among {b : UInt8} {s : Text} {r : Reading}
    (h : (if b = 0x2D then readLong flags s else readGroup flags (b :: s)) = .ok r) :
    r.Among flags := by
  split at h
  · exact readLong_among h
  · exact readGroup_among h

end Flags

namespace ParsedArguments

/-! ### What all arguments say -/

section Induction

variable {P : ParsedArguments → Prop} {p q : ParsedArguments}
  (hset : ∀ p f v, f ∈ flags → P p → P { p with flags := p.flags.insert (Text.utf8 f.name) v })
  (hothers : ∀ p others, P p → P { p with others })

include hset in
/-- What is kept by setting one of some flags is kept by setting several. -/
theorem setAll_induct {settings : List (Flag × Text)}
    (hsettings : ∀ setting ∈ settings, setting.1 ∈ flags) (hp : P p)
    (h : p.setAll settings = .ok q) : P q := by
  induction settings generalizing p with
  | nil =>
    cases h
    exact hp
  | cons setting rest ih =>
    obtain ⟨f, s⟩ := setting
    rw [List.forall_mem_cons] at hsettings
    rw [setAll] at h
    split at h
    · exact ih hsettings.2 (hset p f _ hsettings.1 hp) h
    · cases h

include hset hothers in
/-- What is kept by setting one of some flags, and does not depend on the other arguments, is kept
by reading arguments. -/
theorem parse_induct {arguments : List Text} (hp : P p)
    (h : parse flags p arguments = .ok q) : P q := by
  fun_induction parse flags p arguments with
  | case1 p => exact Except.ok.inj h ▸ hp
  | case2 p rest => exact Except.ok.inj h ▸ hothers p _ hp
  | case3 | case4 => cases h
  | case5 p b s _ _ r hr p' hfirst rest hwants =>
    rename_i ih
    exact ih (setAll_induct hset (Flags.read_among hr).set hp hfirst) h
  | case6 | case7 => cases h
  | case8 p b s _ _ r hr p' hfirst f _ text rest hwants p'' hnext =>
    rename_i ih
    have hamong := Flags.read_among hr
    -- the flag that still wants a value is one of them, and takes the next argument
    have hf : ∀ setting ∈ [(f, text)], setting.1 ∈ flags := by
      simpa using hamong.wants _ hwants
    exact ih (setAll_induct hset hf (setAll_induct hset hamong.set hp hfirst) hnext) h
  | case9 p s rest _ _ ih => exact ih (hothers p _ hp) h

end Induction

/-- A name that no flag has gets no value. -/
theorem get?_ofList_of_unknown {p : ParsedArguments} {arguments : List Text} {name : Text}
    (h : ofList flags arguments = .ok p) (hname : ∀ f ∈ flags, Text.utf8 f.name ≠ name) :
    p.flags.get? name = none := by
  refine parse_induct (P := fun p => p.flags.get? name = none) (fun p f v hf hp => ?_)
    (fun _ _ hp => hp) rfl h
  rw [Table.get?_insert, if_neg (Ne.symm (hname f hf)), hp]

end ParsedArguments

end SqlStubs
