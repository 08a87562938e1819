import SqlStubs.Text.Printable
import SqlStubs.Text.Utf8

/-!
# Quoted texts

Messages and log lines show a text between double quotes (`quoted`) and a single character between
apostrophes (`quotedCharacter`).  Printable characters stand for themselves; the delimiter and the
backslash are escaped by a backslash, seven control characters have a letter of their own, and all
else is written in hexadecimal: `\xff` for a control character of ASCII or a byte outside UTF-8,
`\u00a0` and `\U000e0001` for the other characters.
-/

namespace SqlStubs.Text

open Utf8 (Piece)

/-- A hexadecimal digit in lower case. -/
def hexDigit (n : Nat) : UInt8 := if n < 10 then (0x30 + n).toUInt8 else (0x57 + n).toUInt8

/-- The last `width` hexadecimal digits of a number. -/
def hexadecimal : (width : Nat) → Nat → Text
  | 0, _ => []
  | width + 1, n => hexadecimal width (n / 16) ++ [hexDigit (n % 16)]

/-- The letter that names a control character after a backslash. -/
def controlLetter? : Nat → Option UInt8
  | 0x07 => some 0x61
  | 0x08 => some 0x62
  | 0x0C => some 0x66
  | 0x0A => some 0x6E
  | 0x0D => some 0x72
  | 0x09 => some 0x74
  | 0x0B => some 0x76
  | _ => none

/-- A character as it stands between two `delimiter`s. -/
def escaped (delimiter : UInt8) (code : Nat) (bytes : Text) : Text :=
  if code = delimiter.toNat || code = 0x5C then 0x5C :: bytes
  else if isPrintable code then bytes
  else match controlLetter? code with
    | some letter => [0x5C, letter]
    | none =>
      if code < 0x20 || code = 0x7F then 0x5C :: 0x78 :: hexadecimal 2 code
      else if code < 0x10000 then 0x5C :: 0x75 :: hexadecimal 4 code
      else 0x5C :: 0x55 :: hexadecimal 8 code

/-- A piece of a text as it stands between double quotes. -/
def quotedPiece : Piece → Text
  | .character code bytes => escaped 0x22 code bytes
  | .stray byte => 0x5C :: 0x78 :: hexadecimal 2 byte.toNat

/-- The text between double quotes. -/
def quoted (s : Text) : Text := 0x22 :: (Utf8.pieces s).flatMap quotedPiece ++ [0x22]

/-- The character between apostrophes. -/
def quotedCharacter (code : Nat) : Text := 0x27 :: escaped 0x27 code (Utf8.encode code) ++ [0x27]

end SqlStubs.Text
