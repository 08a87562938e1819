import SqlStubs.Literal.Integer

/-!
# Floating point numbers

A finite number is a mantissa times a power of two, with a mantissa below 2^53 and a power of at
least 2^-1074.  `Binary64.ofDecimal?` gives the number nearest to a decimal, and `Binary64.decimal`
the shortest decimal that is nearer to a number than to any other, written without an exponent.  All
of it is exact arithmetic on natural numbers.
-/

namespace SqlStubs

/-- A floating point number. -/
inductive Binary64 where
  | nan
  | infinity (negative : Bool)
  /-- The number `mantissa * 2 ^ (power - 1074)`. -/
  | finite (negative : Bool) (mantissa power : Nat)
deriving Repr, DecidableEq

namespace Binary64

/-- The quotient rounded to the nearest integer, a half to the even one. -/
def roundedQuotient (n d : Nat) : Nat :=
  let q := n / d
  let twice := 2 * (n % d)
  if twice < d then q
  else if d < twice then q + 1
  else q + q % 2

/-- The number of binary digits. -/
def bits (n : Nat) : Nat := if n = 0 then 0 else n.log2 + 1

/-- The number nearest to `n / d`, unless it is too large. -/
def nearest? (negative : Bool) (n d : Nat) : Option Binary64 :=
  -- scaled by 2^1074 the least power is zero
  let scaled := n * Nat.pow 2 1074
  let power := bits (scaled / d) - 53
  let m := roundedQuotient scaled (d * Nat.pow 2 power)
  let (m, power) := if m = Nat.pow 2 53 then (Nat.pow 2 52, power + 1) else (m, power)
  if power ≤ 2045 then some (.finite negative m power) else none

/-- The number nearest to `n * 10 ^ e`, unless it is too large.  Exponents that are far out are
decided by the number of digits alone. -/
def ofScaled? (negative : Bool) (n : Nat) (e : Int) : Option Binary64 :=
  let digits : Int := (Nat.toDigits 10 n).length
  if n = 0 || digits + e < -400 then some (.finite negative 0 0)
  else if 400 < digits + e then none
  else match e with
    | .ofNat e => nearest? negative (n * Nat.pow 10 e) 1
    | .negSucc e => nearest? negative n (Nat.pow 10 (e + 1))

/-- The number that a text of digits stands for. -/
def digitsValue (s : Text) : Nat := s.foldl (fun n b => n * 10 + (b.toNat - 0x30)) 0

/-- A decimal in parts: sign, digits before and after the point, and exponent. -/
structure Decimal where
  negative : Bool
  whole : Text
  fraction : Text
  exponent : Int
deriving Repr, DecidableEq

/-- The exponent that a text gives: nothing, or `e` and an integer. -/
def decimalExponent? : Text → Option Int
  | [] => some 0
  | b :: s =>
    let (negative, digits) := Literal.splitSign s
    if (b = 0x65 || b = 0x45) && !digits.isEmpty && digits.all Text.isDigit then
      some (if negative then -(digitsValue digits : Int) else digitsValue digits)
    else none

/-- The parts of a decimal: a sign, digits with at most one point, and an exponent. -/
def decimal? (s : Text) : Option Decimal :=
  let (negative, s) := Literal.splitSign s
  let whole := s.takeWhile Text.isDigit
  let (fraction, rest, pointed) := match s.dropWhile Text.isDigit with
    | 0x2E :: s => (s.takeWhile Text.isDigit, s.dropWhile Text.isDigit, true)
    | s => ([], s, false)
  if whole.isEmpty && (fraction.isEmpty || !pointed) then none
  else (decimalExponent? rest).map fun exponent => { negative, whole, fraction, exponent }

/-- The number nearest to a decimal, unless the text is none or the number is too large. -/
def ofDecimal? (s : Text) : Option Binary64 := do
  let d ← decimal? s
  ofScaled? d.negative (digitsValue (d.whole ++ d.fraction)) (d.exponent - d.fraction.length)

/-- Whether a number is not zero; what is no number counts as such. -/
def isNonzero : Binary64 → Bool
  | finite _ m _ => m ≠ 0
  | _ => true

/-- The integer next to a number toward zero.  What is out of the range of 64 bits becomes the least
integer. -/
def truncated : Binary64 → Int
  | finite negative m power =>
    let n : Nat := m * Nat.pow 2 power / Nat.pow 2 1074
    if n < Literal.signLimit then (if negative then -(n : Int) else n) else -Literal.signLimit
  | _ => -Literal.signLimit

/-! ### The shortest decimal -/

/-- The numbers that round to a given one lie between `low` and `high`, all over `2 ^ 1076`; the
ends are included if `closed`. -/
structure Neighbourhood where
  low : Nat
  value : Nat
  high : Nat
  closed : Bool
deriving Repr, DecidableEq

/-- The neighbourhood of `m * 2 ^ (power - 1074)`.  Below a power of two the numbers are twice as
close. -/
def neighbourhood (m power : Nat) : Neighbourhood :=
  let unit := Nat.pow 2 power
  { low := (4 * m - (if m = Nat.pow 2 52 && power ≠ 0 then 1 else 2)) * unit
    value := 4 * m * unit
    high := (4 * m + 2) * unit
    closed := m % 2 = 0 }

/-- Whether `x` over `2 ^ 1076` rounds to the number. -/
def Neighbourhood.holds (n : Neighbourhood) (x : Nat) : Bool :=
  if n.closed then n.low ≤ x && x ≤ n.high else n.low < x && x < n.high

/-- The multiple of a power of ten nearest to the value, if it rounds to the number.  The power of
ten is `num / den`, over `2 ^ 1076` like the rest. -/
def Neighbourhood.candidate? (n : Neighbourhood) (num den : Nat) : Option Nat :=
  let scaled : Neighbourhood := ⟨n.low * den, n.value * den, n.high * den, n.closed⟩
  let c := roundedQuotient scaled.value num
  let below := scaled.value / num
  if scaled.holds (c * num) then some c
  else if scaled.holds (below * num) then some below
  else if scaled.holds ((below + 1) * num) then some (below + 1)
  else none

/-- The coarsest decimal that rounds to the number, from the exponent `e` down. -/
def Neighbourhood.shortest (n : Neighbourhood) : (steps : Nat) → (e : Int) → Nat × Int
  | 0, e => (0, e)
  | steps + 1, e =>
    let (num, den) := match e with
      | .ofNat e => (Nat.pow 10 e * Nat.pow 2 1076, 1)
      | .negSucc e => (Nat.pow 2 1076, Nat.pow 10 (e + 1))
    match n.candidate? num den with
    | some 0 | none => n.shortest steps (e - 1)
    | some c => (c, e)

/-- The digits of a number with the point `places` digits before their end, or zeros added. -/
def positional (digits : Text) : (e : Int) → Text
  | .ofNat e => digits ++ List.replicate e 0x30
  | .negSucc e =>
    let places := e + 1
    let padded := List.replicate (places + 1 - digits.length) 0x30 ++ digits
    padded.take (padded.length - places) ++ [0x2E] ++ padded.drop (padded.length - places)

/-- The shortest decimal of `m * 2 ^ (power - 1074)`, which is not zero: its digits, and the power
of ten of the last one. -/
def shortestDigits (m power : Nat) : Text × Int :=
  -- the largest number is below 10^309, and the least above 10^-324
  let (c, e) := (neighbourhood m power).shortest 700 310
  (Text.decimal c, e)

/-- A number as a text, with its finite values other than zero written by `write`. -/
def textBy (write : Text → Int → Text) : Binary64 → Text
  | nan => Text.utf8 "NaN"
  | infinity negative => Text.utf8 (if negative then "-Inf" else "+Inf")
  | finite negative m power =>
    let digits :=
      if m = 0 then Text.utf8 "0"
      else
        let (digits, e) := shortestDigits m power
        write digits e
    if negative then 0x2D :: digits else digits

/-- The shortest decimal that is read back as the number, without an exponent. -/
def decimal : Binary64 → Text := textBy positional

/-- Digits with a point after the first one, and an exponent of at least two digits. -/
def scientific (digits : Text) (exponent : Int) : Text :=
  let fraction := if digits.length = 1 then [] else 0x2E :: digits.drop 1
  let power := Text.decimal exponent.natAbs
  digits.take 1 ++ fraction ++ [0x65, if exponent < 0 then 0x2D else 0x2B]
    ++ List.replicate (2 - power.length) 0x30 ++ power

/-- The shortest decimal that is read back as the number, with an exponent if it is large or close
to zero. -/
def brief : Binary64 → Text :=
  textBy fun digits e =>
    let exponent := e + (digits.length - 1 : Nat)
    if exponent < -4 || 6 ≤ exponent then scientific digits exponent else positional digits e

end Binary64

end SqlStubs
