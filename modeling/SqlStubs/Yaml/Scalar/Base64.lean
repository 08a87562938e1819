import SqlStubs.Text

/-!
# Bytes in base 64

Four characters stand for three bytes.  At the end one or two `=` stand in for characters that are
not needed.  Line breaks do not count.
-/

namespace SqlStubs.Yaml.Base64

/-- The number that a character stands for. -/
def value? (b : UInt8) : Option Nat :=
  if Text.isUpper b then some (b.toNat - 0x41)
  else if Text.isLower b then some (b.toNat - 0x61 + 26)
  else if Text.isDigit b then some (b.toNat - 0x30 + 52)
  else if b = 0x2B then some 62
  else if b = 0x2F then some 63
  else none

/-- The bytes of groups of four characters. -/
def groups? : Text → Option Text
  | [] => some []
  | [a, b, 0x3D, 0x3D] => do
    let n := (← value? a) * 64 + (← value? b)
    some [(n / 16).toUInt8]
  | [a, b, c, 0x3D] => do
    let n := ((← value? a) * 64 + (← value? b)) * 64 + (← value? c)
    some [(n / 1024).toUInt8, (n / 4 % 256).toUInt8]
  | a :: b :: c :: d :: rest => do
    let n := (((← value? a) * 64 + (← value? b)) * 64 + (← value? c)) * 64 + (← value? d)
    some ((n / 65536).toUInt8 :: (n / 256 % 256).toUInt8 :: (n % 256).toUInt8 :: (← groups? rest))
  | _ => none

/-- The bytes that a text stands for. -/
def decode? (s : Text) : Option Text := groups? (s.filter fun b => b ≠ 0x0A && b ≠ 0x0D)

end SqlStubs.Yaml.Base64
