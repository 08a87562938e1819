import SqlStubs.Yaml.Token.Reader

/-!
# Anchors, aliases and tags

A node may be named by an anchor, stand for another one by an alias, and have a tag.  A tag is a
handle, which directives expand, and a suffix; `!<...>` is a tag without a handle.
-/

namespace SqlStubs.Yaml

/-- The characters that may follow a name besides gaps. -/
def isAfterName (c : Char) : Bool :=
  isGap c || ['?', ':', ',', ']', '\x7d', '%', '@', '\x60'].contains c

/-- The characters of the suffix of a tag. -/
def isTagCharacter (c : Char) : Bool :=
  isNameCharacter c || [';', '/', '?', ':', '@', '&', '=', '+', '$', ',', '.', '!', '~', '*',
    '\x27', '(', ')', '[', ']', '%'].contains c

namespace Scan

/-- Reads the name of an anchor or alias after its sign. -/
def anchorName : Scan Text := do
  let start := (← get).mark
  skip
  let name ← takeWhile isNameCharacter
  if name.isEmpty || !isAfterName (← next) then fail .anchorName start
  return textOf name

/-- Reads the byte that a percent sign and two hexadecimal digits stand for. -/
def escapedByte (start : Mark) : Scan UInt8 := do
  need 3
  match (← next) == '%', hexDigit? (← ahead 1), hexDigit? (← ahead 2) with
  | true, some a, some b =>
    skipMany 3
    return (a * 16 + b).toUInt8
  | _, _, _ => fail .uriEscape start

/-- Reads so many bytes that go on with a character. -/
def escapedTrailing (start : Mark) : Nat → Scan Text
  | 0 => return []
  | n + 1 => do
    let b ← escapedByte start
    if !Encoding.isTrailing b then fail .uriTrailingByte start
    return b :: (← escapedTrailing start n)

/-- Reads the bytes of a character that is written by percent signs. -/
def escapedBytes (start : Mark) : Scan Text := do
  let lead ← escapedByte start
  match Encoding.trailingCount? lead with
  | none => fail .uriLeadingByte start
  | some more => return lead :: (← escapedTrailing start more)

/-- Reads the characters of a tag, which may be none only if there is something before them. -/
def tagCharacters (start : Mark) (before : Text) (optional : Bool) : Scan Text := do
  need 1
  let (found, bytes) ← loop (fun (found, bytes) => do
    let c ← next
    if isTagCharacter c then
      let more ← if c = '%' then escapedBytes start else do
        skip
        pure (Text.Utf8.encode c.toNat)
      need 1
      return ((true, bytes ++ more.toArray), true)
    else return ((found, bytes), false)) (optional, #[])
  if !found then fail .tagUri start
  return before ++ bytes.toList

/-- Reads a handle: an exclamation mark, and a name and another one if they are there.  Only within
a directive a name must be closed. -/
def tagHandle (start : Mark) (inDirective : Bool) : Scan Text := do
  need 1
  if (← next) ≠ '!' then fail .tagHandle start
  skip
  let name ← takeWhile isNameCharacter
  let text := 0x21 :: textOf name
  if (← next) = '!' then
    skip
    return text ++ [0x21]
  else if inDirective && !name.isEmpty then fail .tagHandle start
  else return text

/-- Whether a text that begins with an exclamation mark also ends with another one. -/
def isClosedHandle (handle : Text) : Bool := 1 < handle.length && handle.getLast? = some 0x21

/-- Reads a tag. -/
def tag : Scan TokenKind := do
  let start := (← get).mark
  need 2
  let kind ←
    if (← ahead 1) = '<' then do
      skipMany 2
      let suffix ← tagCharacters start [] false
      if (← next) ≠ '>' then fail .tagClose start
      skip
      pure (TokenKind.tag [] suffix)
    else do
      let handle ← tagHandle start false
      if isClosedHandle handle then
        pure (.tag handle (← tagCharacters start [] false))
      else
        let suffix ← tagCharacters start (handle.drop 1) true
        -- a lone exclamation mark is a tag without a handle
        pure (if suffix.isEmpty then .tag [] [0x21] else .tag [0x21] suffix)
  need 1
  if !isGap (← next) then fail .tagEnd start
  return kind

end Scan

end SqlStubs.Yaml
