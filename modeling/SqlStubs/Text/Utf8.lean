import SqlStubs.Text

/-!
# Texts read as UTF-8

`Utf8.pieces` reads a text as characters as far as it is well-formed UTF-8.  A byte that begins no
well-formed character stands for itself, so that every text can be read.
-/

namespace SqlStubs.Text.Utf8

/-- A piece of a text: an encoded character, or a byte that begins none. -/
inductive Piece where
  /-- A character with its encoding. -/
  | character (code : Nat) (bytes : Text)
  /-- A byte outside every well-formed character. -/
  | stray (byte : UInt8)
deriving Repr, DecidableEq

/-- A byte from `lo` to `hi`. -/
def within (lo hi b : UInt8) : Bool := lo ≤ b && b ≤ hi

/-- The payload of a continuation byte. -/
def payload (b : UInt8) : Nat := b.toNat - 0x80

/-- The character that a lead byte and the bytes after it encode, with the number of bytes after the
lead byte.  The second byte is bounded more narrowly after some lead bytes, which rules out long
forms, surrogates and codes above U+10FFFF. -/
def character? (lead : UInt8) (rest : Text) : Option (Nat × Nat) :=
  if lead < 0x80 then some (lead.toNat, 0)
  else if within 0xC2 0xDF lead then
    match rest with
    | b :: _ =>
      if within 0x80 0xBF b then some ((lead.toNat - 0xC0) * 64 + payload b, 1) else none
    | _ => none
  else if within 0xE0 0xEF lead then
    match rest with
    | b :: c :: _ =>
      if within (if lead = 0xE0 then 0xA0 else 0x80) (if lead = 0xED then 0x9F else 0xBF) b
          && within 0x80 0xBF c then
        some (((lead.toNat - 0xE0) * 64 + payload b) * 64 + payload c, 2)
      else none
    | _ => none
  else if within 0xF0 0xF4 lead then
    match rest with
    | b :: c :: d :: _ =>
      if within (if lead = 0xF0 then 0x90 else 0x80) (if lead = 0xF4 then 0x8F else 0xBF) b
          && within 0x80 0xBF c && within 0x80 0xBF d then
        some ((((lead.toNat - 0xF0) * 64 + payload b) * 64 + payload c) * 64 + payload d, 3)
      else none
    | _ => none
  else none

/-- The text as characters and stray bytes. -/
def pieces : Text → List Piece
  | [] => []
  | lead :: rest =>
    match character? lead rest with
    | some (code, more) => .character code (lead :: rest.take more) :: pieces (rest.drop more)
    | none => .stray lead :: pieces rest
termination_by s => s.length
decreasing_by
  · simp only [List.length_drop, List.length_cons]; omega
  · simp

/-- The UTF-8 encoding of a character code. -/
def encode (code : Nat) : Text :=
  if code < 0x80 then [code.toUInt8]
  else if code < 0x800 then [(0xC0 + code / 64).toUInt8, (0x80 + code % 64).toUInt8]
  else if code < 0x10000 then
    [(0xE0 + code / 4096).toUInt8, (0x80 + code / 64 % 64).toUInt8, (0x80 + code % 64).toUInt8]
  else
    [(0xF0 + code / 262144).toUInt8, (0x80 + code / 4096 % 64).toUInt8,
      (0x80 + code / 64 % 64).toUInt8, (0x80 + code % 64).toUInt8]

end SqlStubs.Text.Utf8
