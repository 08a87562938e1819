import Mathlib.Logic.Equiv.Defs
import SqlStubs.AggregateType

/-!
# The suggestion that decides

`decide_laws`: which of several suggestions decides does not depend on how they are grouped, and it
depends on their order only as far as equally strong ones are concerned.  A final function decides
wherever it stands, and without one another function, and without any function a state type; of
several equally strong ones the last decides.

To take the stronger of two is associative and the absence of a suggestion is neutral, so a list can
be decided part by part (`decide_append`).  The order is looked at for one rank at a time: what
decides is the last suggestion of the strongest rank that occurs (`decide_eq_lastOfRank?`), and a
reordering that keeps equally strong suggestions in order moves none of a rank behind the last of
that rank (`Reordered.lastOfRank?_eq`).
-/

namespace SqlStubs

/-- The last value that is found in a list is found later, or in its first element. -/
theorem getLast?_filterMap_cons {α β : Type} (f : α → Option β) (a : α) (l : List α) :
    ((a :: l).filterMap f).getLast? = ((l.filterMap f).getLast?).or (f a) := by
  cases h : f a with
  | none => rw [List.filterMap_cons_none h, Option.or_none]
  | some b =>
    rw [List.filterMap_cons_some h, List.getLast?_cons]
    cases (l.filterMap f).getLast? <;> rfl

namespace TypeHint

/-! ### The suggestion that decides -/

variable {rank : Nat} {h : TypeHint} {hints : List TypeHint}

/-- The last suggestion of a rank. -/
def lastOfRank? (rank : Nat) (hints : List TypeHint) : Option TypeHint :=
  (hints.filter (·.rank = rank)).getLast?

theorem lastOfRank?_cons (rank : Nat) (h : TypeHint) (hints : List TypeHint) :
    lastOfRank? rank (h :: hints) =
      (lastOfRank? rank hints).or (Option.guard (·.rank = rank) h) := by
  unfold lastOfRank?
  rw [← List.filterMap_eq_filter, getLast?_filterMap_cons]

theorem lastOfRank?_eq_none_iff :
    lastOfRank? rank hints = Option.none ↔ ∀ h ∈ hints, h.rank ≠ rank := by
  rw [lastOfRank?, List.getLast?_eq_none_iff, List.filter_eq_nil_iff]
  simp

theorem mem_and_rank_of_mem_lastOfRank? (hlast : h ∈ lastOfRank? rank hints) :
    h ∈ hints ∧ h.rank = rank := by
  simpa using List.mem_filter.1 (List.mem_of_getLast? hlast)

/-- To decide from a suggestion on is to compare it with what decides among the others.  This is the
associativity of the stronger of two. -/
theorem foldl_stronger (h : TypeHint) (hints : List TypeHint) :
    hints.foldl stronger h = h.stronger (decide hints) := by
  induction hints generalizing h with
  | nil => exact (stronger_none_right h).symm
  | cons g hints ih =>
    rw [decide, List.foldl_cons, List.foldl_cons, ih, ih, stronger_none_left, stronger_assoc]

/-- The first suggestion is compared with what decides among the others. -/
theorem decide_cons (h : TypeHint) (hints : List TypeHint) :
    decide (h :: hints) = h.stronger (decide hints) := by
  rw [decide, List.foldl_cons, stronger_none_left, foldl_stronger]

/-- No suggestion is stronger than the one that decides. -/
theorem rank_le_rank_decide (hmem : h ∈ hints) : h.rank ≤ (decide hints).rank := by
  induction hints with
  | nil => cases hmem
  | cons g hints ih =>
    rw [decide_cons, rank_stronger]
    rcases List.mem_cons.1 hmem with rfl | hmem
    · exact Nat.le_max_left _ _
    · exact Nat.le_trans (ih hmem) (Nat.le_max_right _ _)

/-- The suggestion that decides is the last of its rank. -/
theorem lastOfRank?_decide (hne : decide hints ≠ none) :
    lastOfRank? (decide hints).rank hints = Option.some (decide hints) := by
  induction hints with
  | nil => exact absurd rfl hne
  | cons h hints ih =>
    rw [decide_cons] at hne ⊢
    rw [lastOfRank?_cons]
    by_cases hle : h.rank ≤ (decide hints).rank
    · have hlater : h.stronger (decide hints) = decide hints := if_pos hle
      rw [hlater] at hne ⊢
      rw [ih hne, Option.some_or]
    · -- all later ones are weaker than the first
      have hfirst : h.stronger (decide hints) = h := if_neg hle
      have hnone : lastOfRank? h.rank hints = Option.none := by
        refine lastOfRank?_eq_none_iff.2 fun g hg => ?_
        have := rank_le_rank_decide hg
        omega
      rw [hfirst, hnone, Option.none_or]
      simp [Option.guard]

/-- The last suggestion of the strongest rank that occurs decides. -/
theorem decide_eq_of_mem_lastOfRank? (hpos : 0 < rank) (hlast : h ∈ lastOfRank? rank hints)
    (hmax : ∀ g ∈ hints, g.rank ≤ rank) : decide hints = h := by
  obtain ⟨hmem, hrank⟩ := mem_and_rank_of_mem_lastOfRank? hlast
  have hle := rank_le_rank_decide hmem
  have hne : decide hints ≠ none := by
    intro hnone
    rw [hnone, hrank] at hle
    exact absurd hle (Nat.not_le.2 hpos)
  have hdecide := lastOfRank?_decide hne
  have hge := hmax _ (mem_and_rank_of_mem_lastOfRank? hdecide).1
  have heq : (decide hints).rank = rank := by omega
  rw [heq] at hdecide
  exact Option.some.inj (hdecide.symm.trans hlast)

/-- Without any suggestion nothing is decided. -/
theorem decide_eq_none (hmax : ∀ g ∈ hints, g.rank ≤ 0) : decide hints = none := by
  by_cases hne : decide hints = none
  · exact hne
  · have hmem := (mem_and_rank_of_mem_lastOfRank? (lastOfRank?_decide hne)).1
    exact rank_eq_zero.1 (Nat.le_zero.1 (hmax _ hmem))

/-- Without a suggestion of the highest rank all are weaker. -/
theorem rank_le_of_lastOfRank?_eq_none (hnone : lastOfRank? (rank + 1) hints = Option.none)
    (hmax : ∀ h ∈ hints, h.rank ≤ rank + 1) : ∀ h ∈ hints, h.rank ≤ rank := by
  intro h hmem
  have hne := lastOfRank?_eq_none_iff.1 hnone h hmem
  have hle := hmax h hmem
  omega

theorem rank_le_three (h : TypeHint) : h.rank ≤ 3 := by
  cases h with
  | none => exact Nat.zero_le 3
  | some kind type => cases kind <;> simp [TypeHint.rank]

/-- The last suggestion of the highest rank decides. -/
theorem decide_eq_lastOfRank? (hints : List TypeHint) :
    decide hints = (((lastOfRank? 3 hints).or (lastOfRank? 2 hints)).or
      (lastOfRank? 1 hints)).getD none := by
  have hthree : ∀ h ∈ hints, h.rank ≤ 3 := fun h _ => h.rank_le_three
  -- from the strongest down: the last of a rank decides, or there is none of it
  cases hfinal : lastOfRank? 3 hints with
  | some h => exact decide_eq_of_mem_lastOfRank? (by omega) hfinal hthree
  | none =>
    have htwo := rank_le_of_lastOfRank?_eq_none hfinal hthree
    cases hother : lastOfRank? 2 hints with
    | some h => exact decide_eq_of_mem_lastOfRank? (by omega) hother htwo
    | none =>
      have hone := rank_le_of_lastOfRank?_eq_none hother htwo
      cases hstate : lastOfRank? 1 hints with
      | some h => exact decide_eq_of_mem_lastOfRank? (by omega) hstate hone
      | none => exact decide_eq_none (rank_le_of_lastOfRank?_eq_none hstate hone)

/-! ### Kinds of options -/

/-- Whether a suggestion comes from an option of one of these kinds. -/
def comesFrom (kinds : List OptionKind) : TypeHint → Bool
  | none => false
  | some kind _ => kind ∈ kinds

/-- The last suggestion that comes from an option of one of these kinds. -/
def lastFrom? (kinds : List OptionKind) (hints : List TypeHint) : Option TypeHint :=
  (hints.filter (·.comesFrom kinds)).getLast?

theorem lastFrom?_eq_lastOfRank? {kinds : List OptionKind}
    (hkinds : ∀ h : TypeHint, h.comesFrom kinds = true ↔ h.rank = rank) (hints : List TypeHint) :
    lastFrom? kinds hints = lastOfRank? rank hints := by
  rw [lastFrom?, lastOfRank?]
  congr 2
  funext h
  rw [Bool.eq_iff_iff, hkinds h, decide_eq_true_iff]

theorem comesFrom_iff_rank (h : TypeHint) :
    (h.comesFrom [.finalfunc] = true ↔ h.rank = 3) ∧
    (h.comesFrom [.sfunc, .prefunc, .initcond] = true ↔ h.rank = 2) ∧
    (h.comesFrom [.stype] = true ↔ h.rank = 1) := by
  cases h with
  | none => simp [comesFrom, TypeHint.rank]
  | some kind type => cases kind <;> simp [comesFrom, TypeHint.rank]

/-- The last final function decides; without one the last other function; without any function the
last state type. -/
theorem decide_eq_lastFrom? (hints : List TypeHint) :
    decide hints =
      (((lastFrom? [.finalfunc] hints).or (lastFrom? [.sfunc, .prefunc, .initcond] hints)).or
        (lastFrom? [.stype] hints)).getD none := by
  rw [lastFrom?_eq_lastOfRank? fun h => (comesFrom_iff_rank h).1,
    lastFrom?_eq_lastOfRank? fun h => (comesFrom_iff_rank h).2.1,
    lastFrom?_eq_lastOfRank? fun h => (comesFrom_iff_rank h).2.2]
  exact decide_eq_lastOfRank? hints

/-! ### Grouping and order -/

/-- What decides among the suggestions of two lists is the stronger of what decides among each. -/
theorem decide_append (xs ys : List TypeHint) :
    decide (xs ++ ys) = (decide xs).stronger (decide ys) := by
  rw [decide, List.foldl_append, foldl_stronger]
  rfl

/-- The last suggestion of a rank is at a place after which there is none of this rank. -/
theorem lastOfRank?_eq_some_iff : lastOfRank? rank hints = Option.some h ↔
    ∃ i, hints.get i = h ∧ h.rank = rank ∧ ∀ j, i < j → (hints.get j).rank ≠ rank := by
  induction hints with
  | nil => exact ⟨nofun, fun ⟨i, _⟩ => i.elim0⟩
  | cons g hints ih =>
    rw [lastOfRank?_cons, Option.or_eq_some_iff, ih]
    constructor
    · rintro (⟨i, hget, hrank, hlast⟩ | ⟨hnone, hguard⟩)
      · refine ⟨i.succ, hget, hrank, fun j hj => ?_⟩
        cases j using Fin.cases with
        | zero => exact absurd hj (Nat.not_lt_zero _)
        | succ k => exact hlast k (Fin.succ_lt_succ_iff.1 hj)
      · obtain ⟨rfl, hrank⟩ := Option.guard_eq_some_iff.1 hguard
        refine ⟨⟨0, Nat.zero_lt_succ _⟩, rfl, of_decide_eq_true hrank, fun j hj => ?_⟩
        cases j using Fin.cases with
        | zero => exact absurd hj (Nat.lt_irrefl _)
        | succ k => exact lastOfRank?_eq_none_iff.1 hnone _ (List.get_mem hints k)
    · rintro ⟨i, hget, hrank, hlast⟩
      cases i using Fin.cases with
      | zero =>
        have hlater : lastOfRank? rank hints = Option.none := by
          refine lastOfRank?_eq_none_iff.2 fun h hmem => ?_
          obtain ⟨k, rfl⟩ := List.get_of_mem hmem
          exact hlast k.succ (Fin.succ_pos k)
        have hgh : g = h := hget
        exact .inr ⟨hlater, by simp [Option.guard, hgh, hrank]⟩
      | succ k => exact .inl ⟨k, hget, hrank, fun j hj => hlast j.succ (Fin.succ_lt_succ_iff.2 hj)⟩

/-- The suggestions `ys` are those of `xs` in another order, in which equally strong ones follow one
another as before. -/
def Reordered (xs ys : List TypeHint) : Prop :=
  ∃ place : Fin xs.length ≃ Fin ys.length, (∀ i, ys.get (place i) = xs.get i) ∧
    ∀ i j, i < j → (xs.get i).rank = (xs.get j).rank → place i < place j

section Reordered

variable {xs ys : List TypeHint}

/-- The last suggestion of a rank stays the last if those of the same rank keep their order. -/
theorem Reordered.lastOfRank?_eq (hxy : Reordered xs ys) (rank : Nat) :
    lastOfRank? rank xs = lastOfRank? rank ys := by
  obtain ⟨place, hget, hkeeps⟩ := hxy
  symm
  cases hx : lastOfRank? rank xs with
  | none =>
    refine lastOfRank?_eq_none_iff.2 fun h hmem => ?_
    obtain ⟨j, rfl⟩ := List.get_of_mem hmem
    obtain ⟨k, rfl⟩ := place.surjective j
    rw [hget]
    exact lastOfRank?_eq_none_iff.1 hx _ (List.get_mem xs k)
  | some h =>
    obtain ⟨i, hi, hrank, hlast⟩ := lastOfRank?_eq_some_iff.1 hx
    refine lastOfRank?_eq_some_iff.2 ⟨place i, (hget i).trans hi, hrank, fun j hj hj' => ?_⟩
    obtain ⟨k, rfl⟩ := place.surjective j
    rw [hget] at hj'
    -- one of this rank that was before the last is still before it
    rcases Nat.lt_trichotomy k i with hlt | heq | hgt
    · have hbefore := hkeeps k i hlt (by rw [hj', hi, hrank])
      exact Nat.lt_asymm hj hbefore
    · rw [Fin.ext heq] at hj
      exact Nat.lt_irrefl _ hj
    · exact hlast k hgt hj'

theorem Reordered.decide_eq (h : Reordered xs ys) : decide xs = decide ys := by
  rw [decide_eq_lastOfRank? xs, decide_eq_lastOfRank? ys, h.lastOfRank?_eq 3, h.lastOfRank?_eq 2,
    h.lastOfRank?_eq 1]

end Reordered

/-- Suggestions are decided part by part, and in any order that keeps equally strong ones in theirs:
to take the stronger is associative, with no suggestion as its neutral element.  A final function
decides wherever it stands, and other functions before state types, and of several equally strong
ones the last. -/
theorem decide_laws :
    (∀ xs ys, decide (xs ++ ys) = (decide xs).stronger (decide ys)) ∧
    (∀ a b c : TypeHint, (a.stronger b).stronger c = a.stronger (b.stronger c)) ∧
    (∀ a : TypeHint, none.stronger a = a ∧ a.stronger none = a) ∧
    (∀ xs ys, Reordered xs ys → decide xs = decide ys) ∧
    ∀ hints, decide hints = (((lastFrom? [.finalfunc] hints).or
      (lastFrom? [.sfunc, .prefunc, .initcond] hints)).or (lastFrom? [.stype] hints)).getD none :=
  ⟨decide_append, stronger_assoc, fun a => ⟨stronger_none_left a, stronger_none_right a⟩,
    fun _ _ => Reordered.decide_eq, decide_eq_lastFrom?⟩

end TypeHint

end SqlStubs
