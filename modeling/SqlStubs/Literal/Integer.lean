import SqlStubs.Literal.Basic

/-!
# Integer literals

An integer is an optional sign and digits.  The base is ten unless a first `0x`, `0o`, `0b` or a
lone `0` says sixteen, eight, two or eight.  Underscores may separate digits, also from such a first
part with a letter.  The value must fit into 64 bits.
-/

namespace SqlStubs.Literal

/-- The value of a digit, of which the letters follow the figures. -/
def digitValue? (b : UInt8) : Option Nat :=
  if Text.isDigit b then some (b.toNat - 0x30)
  else if Text.isLower b then some (b.toNat - 0x57)
  else if Text.isUpper b then some (b.toNat - 0x37)
  else none

/-- The base that a letter after a first zero stands for. -/
def baseOfLetter? : UInt8 → Option Nat
  | 0x62 | 0x42 => some 2
  | 0x6F | 0x4F => some 8
  | 0x78 | 0x58 => some 16
  | _ => none

/-- How the digits of an unsigned literal are to be read. -/
structure Numeral where
  base : Nat
  /-- The digits and underscores. -/
  digits : Text
  /-- Whether an underscore may stand first. -/
  lettered : Bool
deriving Repr, DecidableEq

/-- The base of an unsigned literal, and what is left of it. -/
def numeral : Text → Numeral
  | 0x30 :: letter :: b :: s =>
    match baseOfLetter? letter with
    | some base => ⟨base, b :: s, true⟩
    | none => ⟨8, letter :: b :: s, true⟩
  | 0x30 :: s => ⟨8, s, true⟩
  | s => ⟨10, s, false⟩

/-- The first number that is too large. -/
def wordLimit : Nat := 0x10000000000000000

/-- The first number that is too large for a positive integer. -/
def signLimit : Nat := 0x8000000000000000

/-- The number that digits stand for, after `n` for the digits before them.  The first digit that is
not one of the base, or makes the number too large, decides. -/
def accumulate (base n : Nat) : Text → Except LiteralFault Nat
  | [] => .ok n
  | b :: s =>
    if b = 0x5F then accumulate base n s
    else match digitValue? b with
      | none => .error .invalid
      | some d =>
        if base ≤ d then .error .invalid
        else if wordLimit ≤ n * base + d then .error .outOfRange
        else accumulate base (n * base + d) s

/-- Whether every underscore stands between two digits; `afterDigit` says what came before. -/
def underscoresFit (afterDigit : Bool) : Text → Bool
  | [] => true
  | [0x5F] => false
  | 0x5F :: s => afterDigit && underscoresFit false s
  | _ :: s => underscoresFit true s

/-- The value of an unsigned literal. -/
def natural (s : Text) : Except LiteralFault Nat :=
  if s.isEmpty then .error .invalid
  else
    let n := numeral s
    match accumulate n.base 0 n.digits with
    | .error fault => .error fault
    | .ok value => if underscoresFit n.lettered n.digits then .ok value else .error .invalid

/-- The sign of a literal and what is left of it. -/
def splitSign : Text → Bool × Text
  | 0x2B :: s => (false, s)
  | 0x2D :: s => (true, s)
  | s => (false, s)

/-- The value of an integer literal. -/
def integer (s : Text) : Except LiteralFault Int :=
  let (negative, digits) := splitSign s
  match natural digits with
  | .error fault => .error fault
  | .ok n =>
    if negative then (if n ≤ signLimit then .ok (-(n : Int)) else .error .outOfRange)
    else (if n < signLimit then .ok n else .error .outOfRange)

end SqlStubs.Literal
