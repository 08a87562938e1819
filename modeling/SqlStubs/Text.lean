/-!
# Texts

A text is a string of bytes.  Sources, file names, settings and everything that is written are
texts: nothing in the library needs them to be valid UTF-8, and lines, columns and offsets all count
bytes.  The functions here are the few that every other module uses; `Text.Utf8` reads a text as
characters where quoting has to know them.
-/

namespace SqlStubs

/-- A string of bytes. -/
abbrev Text := List UInt8

namespace Text

/-- The UTF-8 bytes of a string. -/
def utf8 (s : String) : Text := s.toUTF8.data.toList

/-- A number in decimal. -/
def decimal (n : Nat) : Text := (Nat.toDigits 10 n).map fun c => c.toNat.toUInt8

/-- A number in decimal, with a sign if it is negative. -/
def decimalInt : Int → Text
  | .ofNat n => decimal n
  | .negSucc n => 0x2D :: decimal (n + 1)

/-- The number of line breaks in a text. -/
def newlines (s : Text) : Nat := s.count 0x0A

/-- The texts one after the other, with `separator` between neighbours. -/
def join (separator : Text) : List Text → Text
  | [] => []
  | [s] => s
  | s :: rest => s ++ separator ++ join separator rest

@[simp] theorem newlines_nil : newlines [] = 0 := rfl

/-- Line breaks are counted part by part. -/
@[simp] theorem newlines_append (s t : Text) : newlines (s ++ t) = newlines s + newlines t := by
  simp [newlines]

/-! ### Classes of bytes -/

/-- An ASCII digit. -/
def isDigit (b : UInt8) : Bool := 0x30 ≤ b && b ≤ 0x39

/-- An ASCII letter in upper case. -/
def isUpper (b : UInt8) : Bool := 0x41 ≤ b && b ≤ 0x5A

/-- An ASCII letter in lower case. -/
def isLower (b : UInt8) : Bool := 0x61 ≤ b && b ≤ 0x7A

/-! ### Case -/

/-- The text in lower case, as far as a comparison with an ASCII word can see: ASCII letters are
lowered, `İ` (U+0130) becomes `i` and the Kelvin sign (U+212A) becomes `k`.  No other character has
a lower case form in ASCII, so a text holding one differs from every ASCII word before and after. -/
def lowercase : Text → Text
  | 0xC4 :: 0xB0 :: rest => 0x69 :: lowercase rest
  | 0xE2 :: 0x84 :: 0xAA :: rest => 0x6B :: lowercase rest
  | b :: rest => (if isUpper b then b + 0x20 else b) :: lowercase rest
  | [] => []

/-! ### Cutting -/

/-- The text before and after the first occurrence of `mark`, if there is one. -/
def splitAtFirst? (mark : Text) : Text → Option (Text × Text)
  | [] => if mark.isEmpty then some ([], []) else none
  | b :: rest =>
    if mark.isPrefixOf (b :: rest) then some ([], (b :: rest).drop mark.length)
    else (splitAtFirst? mark rest).map fun (before, after) => (b :: before, after)

/-- The text without its last bytes in class `p`. -/
def trimEnd (p : UInt8 → Bool) (s : Text) : Text := (s.reverse.dropWhile p).reverse

/-- The pieces of a text between the bytes equal to `b`; there is always at least one. -/
def splitOn (b : UInt8) : Text → List Text
  | [] => [[]]
  | c :: rest =>
    if c = b then [] :: splitOn b rest
    else match splitOn b rest with
      | [] => [[c]]
      | piece :: pieces => (c :: piece) :: pieces

end Text

end SqlStubs
