import SqlStubs.Declaration
import SqlStubs.ReturnTypes

/-!
# The type of an aggregate

Each option of an aggregate may suggest a type: a function option the return type of the function,
the state type itself.  Of all suggestions the strongest is taken, and among equally strong ones the
last: the final function before the other functions, and these before the state type.  Taking the
stronger of two is associative (`TypeHint.stronger_assoc`), and no suggestion at all is neutral.
-/

namespace SqlStubs

/-- A suggestion for the type of an aggregate. -/
inductive TypeHint where
  /-- No suggestion. -/
  | none
  /-- A type, from an option of this kind.  The type is empty if the option names a function that is
  not known; it is a suggestion all the same. -/
  | some (kind : OptionKind) (type : Text)
deriving Repr, DecidableEq

namespace TypeHint

/-- How strong a suggestion is. -/
def rank : TypeHint → Nat
  | none => 0
  | some .stype _ => 1
  | some .finalfunc _ => 3
  | some _ _ => 2

/-- The type that is suggested; empty without a suggestion. -/
def type : TypeHint → Text
  | none => []
  | some _ type => type

/-- Whether there is no suggestion. -/
def isNone : TypeHint → Bool
  | none => true
  | some _ _ => false

/-- Whether the suggestion comes from the final function. -/
def isFinal : TypeHint → Bool
  | some .finalfunc _ => true
  | _ => false

/-- The stronger of two suggestions, or the later if they are equally strong. -/
def stronger (earlier later : TypeHint) : TypeHint :=
  if earlier.rank ≤ later.rank then later else earlier

/-- Only the missing suggestion has the lowest rank. -/
theorem rank_eq_zero {h : TypeHint} : h.rank = 0 ↔ h = none := by
  cases h with
  | none => simp [rank]
  | some kind type => cases kind <;> simp [rank]

@[simp] theorem stronger_none_left (h : TypeHint) : stronger none h = h := by
  simp [stronger, rank]

/-- The missing suggestion is never stronger, though it may come later. -/
@[simp] theorem stronger_none_right (h : TypeHint) : stronger h none = h := by
  unfold stronger
  split
  · rename_i hr
    exact (rank_eq_zero.1 (Nat.le_zero.1 hr)).symm
  · rfl

/-- The stronger of two suggestions has the higher of their ranks. -/
theorem rank_stronger (a b : TypeHint) : (stronger a b).rank = max a.rank b.rank := by
  unfold stronger
  split <;> omega

/-- Which two of three suggestions are compared first does not matter. -/
theorem stronger_assoc (a b c : TypeHint) :
    stronger (stronger a b) c = stronger a (stronger b c) := by
  have hab := rank_stronger a b
  have hbc := rank_stronger b c
  unfold stronger at hab hbc ⊢
  -- all that matters is how the three ranks compare
  split <;> split <;> grind

/-- The suggestion that decides. -/
def decide (hints : List TypeHint) : TypeHint := hints.foldl stronger none

/-- What an option suggests. -/
def ofOption (types : ReturnTypes) (o : AggregateOption) : TypeHint :=
  match o.kind with
  | .sfunc | .prefunc | .finalfunc => some o.kind (types.get o.value)
  | .stype => some .stype o.value
  | .initcond => none

end TypeHint

/-- The type of an aggregate. -/
def AggregateDeclaration.type (types : ReturnTypes) (d : AggregateDeclaration) : Text :=
  (TypeHint.decide (d.options.map (TypeHint.ofOption types))).type

end SqlStubs
