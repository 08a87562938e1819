import SqlStubs.Text.Utf8

/-!
# The characters of a YAML document

A document is bytes in UTF-8 or in UTF-16; a byte order mark at its beginning says which, and
without one it is UTF-8.  The bytes are decoded in portions, when their characters are needed: what
is wrong with a later portion does not matter to a reader that stops before it.  After the last
character come as many zero characters as are asked for.  No document holds a zero character itself,
so that it marks the end.
-/

namespace SqlStubs.Yaml

/-- How characters are encoded. -/
inductive Encoding where
  | utf8
  /-- Units of two bytes, of which the low byte comes first or last. -/
  | utf16 (lowFirst : Bool)
deriving Repr, DecidableEq

/-- Why bytes are no characters of a document. -/
inductive EncodingFault where
  | leadingByte | incompleteBytes | trailingByte | tooManyBytes | noCharacter
  | incompleteUnit | loneLowSurrogate | incompletePair | missingLowSurrogate
  | controlCharacter
deriving Repr, DecidableEq

/-- The wording of a fault. -/
def EncodingFault.message : EncodingFault → String
  | leadingByte => "invalid leading UTF-8 octet"
  | incompleteBytes => "incomplete UTF-8 octet sequence"
  | trailingByte => "invalid trailing UTF-8 octet"
  | tooManyBytes => "invalid length of a UTF-8 sequence"
  | noCharacter => "invalid Unicode character"
  | incompleteUnit => "incomplete UTF-16 character"
  | loneLowSurrogate => "unexpected low surrogate area"
  | incompletePair => "incomplete UTF-16 surrogate pair"
  | missingLowSurrogate => "expected low surrogate area"
  | controlCharacter => "control characters are not allowed"

/-- A code from `lo` to `hi`. -/
def isWithin (lo hi code : Nat) : Bool := lo ≤ code && code ≤ hi

/-- The codes of the characters that a document may hold. -/
def isAllowed (code : Nat) : Bool :=
  code = 0x09 || code = 0x0A || code = 0x0D || isWithin 0x20 0x7E code || code = 0x85
    || isWithin 0xA0 0xD7FF code || isWithin 0xE000 0xFFFD code || isWithin 0x10000 0x10FFFF code

/-- What stands at the beginning of some bytes. -/
inductive Decoded where
  /-- A character, and the number of its bytes after the first one. -/
  | character (code more : Nat)
  /-- The first bytes of a character; the fault holds if no bytes follow. -/
  | incomplete (fault : EncodingFault)
  | invalid (fault : EncodingFault)
deriving Repr, DecidableEq

namespace Encoding

/-- The number of bytes after the first byte of a character in UTF-8. -/
def trailingCount? (lead : UInt8) : Option Nat :=
  if lead < 0x80 then some 0
  else if 0xC0 ≤ lead && lead < 0xE0 then some 1
  else if 0xE0 ≤ lead && lead < 0xF0 then some 2
  else if 0xF0 ≤ lead && lead < 0xF8 then some 3
  else none

/-- A byte that is not the first one of a character in UTF-8. -/
def isTrailing (b : UInt8) : Bool := 0x80 ≤ b && b < 0xC0

/-- The least code that needs so many bytes after the first one. -/
def leastCode : Nat → Nat
  | 0 => 0
  | 1 => 0x80
  | 2 => 0x800
  | _ => 0x10000

/-- The part of a first byte that belongs to the code. -/
def leadPayload (lead : UInt8) : Nat → Nat
  | 0 => lead.toNat
  | 1 => lead.toNat - 0xC0
  | 2 => lead.toNat - 0xE0
  | _ => lead.toNat - 0xF0

/-- What stands at the beginning of bytes in UTF-8. -/
def decodeUtf8 (lead : UInt8) (rest : List UInt8) : Decoded :=
  match trailingCount? lead with
  | none => .invalid .leadingByte
  | some more =>
    let trailing := rest.take more
    if trailing.length < more then .incomplete .incompleteBytes
    else if !trailing.all isTrailing then .invalid .trailingByte
    else
      let code := trailing.foldl (fun n b => n * 64 + (b.toNat - 0x80)) (leadPayload lead more)
      if code < leastCode more then .invalid .tooManyBytes
      else if isWithin 0xD800 0xDFFF code || 0x10FFFF < code then .invalid .noCharacter
      else if isAllowed code then .character code more
      else .invalid .controlCharacter

/-- A unit of UTF-16. -/
def unit (lowFirst : Bool) (a b : UInt8) : Nat :=
  if lowFirst then a.toNat + b.toNat * 256 else a.toNat * 256 + b.toNat

/-- What stands at the beginning of bytes in UTF-16. -/
def decodeUtf16 (lowFirst : Bool) (lead : UInt8) : List UInt8 → Decoded
  | [] => .incomplete .incompleteUnit
  | b :: rest =>
    let high := unit lowFirst lead b
    if isWithin 0xDC00 0xDFFF high then .invalid .loneLowSurrogate
    else if isWithin 0xD800 0xDBFF high then
      match rest with
      | c :: d :: _ =>
        let low := unit lowFirst c d
        if isWithin 0xDC00 0xDFFF low then
          .character (0x10000 + (high - 0xD800) * 1024 + (low - 0xDC00)) 3
        else .invalid .missingLowSurrogate
      | _ => .incomplete .incompletePair
    else if isAllowed high then .character high 1
    else .invalid .controlCharacter

/-- What stands at the beginning of bytes. -/
def decode : Encoding → UInt8 → List UInt8 → Decoded
  | utf8, lead, rest => decodeUtf8 lead rest
  | utf16 lowFirst, lead, rest => decodeUtf16 lowFirst lead rest

/-- The characters of a portion of bytes, and the bytes at its end that make no whole character.  A
portion that is only such bytes has none after it that would complete them. -/
def characters (encoding : Encoding) :
    List UInt8 → Except EncodingFault (List Char × List UInt8)
  | [] => .ok ([], [])
  | lead :: rest =>
    match encoding.decode lead rest with
    | .invalid fault => .error fault
    | .incomplete _ => .ok ([], lead :: rest)
    | .character code more =>
      match characters encoding (rest.drop more) with
      | .error fault => .error fault
      | .ok (cs, left) => .ok (Char.ofNat code :: cs, left)
termination_by bytes => bytes.length
decreasing_by simp only [List.length_drop, List.length_cons]; omega

/-- The encoding that the first bytes show, and how many of them only serve to show it. -/
def ofMark : List UInt8 → Encoding × Nat
  | 0xFF :: 0xFE :: _ => (utf16 true, 2)
  | 0xFE :: 0xFF :: _ => (utf16 false, 2)
  | 0xEF :: 0xBB :: 0xBF :: _ => (utf8, 3)
  | _ => (utf8, 0)

end Encoding

/-- Whether a list has at least `n` elements. -/
def hasAtLeast {α : Type} : Nat → List α → Bool
  | 0, _ => true
  | _ + 1, [] => false
  | n + 1, _ :: rest => hasAtLeast n rest

/-- A document as far as it has been decoded. -/
structure Characters where
  encoding : Encoding
  /-- The bytes that are not decoded yet. -/
  bytes : List UInt8
  /-- How many bytes the next portion has at most. -/
  portion : Nat
  /-- The characters that are decoded and not read yet. -/
  unread : List Char := []
  /-- The first of the unread characters when a portion was last asked for. -/
  first : Char := '\x00'
deriving Repr, DecidableEq

namespace Characters

/-- The number of bytes in a portion, with those that were left of the one before. -/
def portionSize : Nat := 512

/-- A document of which nothing is decoded.  An empty one is a lone line break. -/
def ofText (s : Text) : Characters :=
  let s := if s.isEmpty then [0x0A] else s
  let (encoding, marks) := Encoding.ofMark s
  { encoding, bytes := s.drop marks, portion := portionSize - marks }

/-- The document with one more portion decoded.  At its end a zero character is added. -/
def more (cs : Characters) : Except EncodingFault Characters :=
  match cs.bytes with
  | [] => .ok { cs with unread := cs.unread ++ ['\x00'] }
  | lead :: rest =>
    match cs.encoding.characters (cs.bytes.take cs.portion) with
    | .error fault => .error fault
    | .ok ([], _) =>
      match cs.encoding.decode lead rest with
      | .incomplete fault => .error fault
      | _ => .ok cs
    | .ok (decoded, left) =>
      .ok { cs with
        unread := cs.unread ++ decoded
        bytes := left ++ cs.bytes.drop cs.portion
        portion := portionSize }

/-- The document with portions decoded until `n` characters are unread or its end is reached, in so
many steps at most. -/
def fill (n : Nat) : (steps : Nat) → Characters → Except EncodingFault Characters
  | 0, cs => .ok cs
  | steps + 1, cs =>
    if hasAtLeast n cs.unread || cs.bytes.isEmpty then .ok cs
    else match cs.more with
      | .error fault => .error fault
      | .ok cs => fill n steps cs

/-- The document with `n` characters unread, as far as it has so many. -/
def need (n : Nat) (cs : Characters) : Except EncodingFault Characters :=
  if hasAtLeast n cs.unread then .ok cs
  else
    -- every portion has a character, so `n` of them are enough
    match fill n n cs with
    | .error fault => .error fault
    | .ok cs =>
      match if hasAtLeast n cs.unread then .ok cs else cs.more with
      | .error fault => .error fault
      | .ok cs => .ok { cs with first := cs.unread.headD '\x00' }

/-- The unread character after `k` others. -/
def ahead (k : Nat) (cs : Characters) : Char := (cs.unread.drop k).headD '\x00'

end Characters

end SqlStubs.Yaml
