import SqlStubs.Yaml.Token.Label

/-!
# Directives

A line that begins with a percent sign is a directive: `%YAML 1.1` gives the version, and `%TAG`
gives what a handle of tags stands for.
-/

namespace SqlStubs.Yaml.Scan

/-- The greatest number of digits of a version. -/
def versionDigits : Nat := 2

/-- Reads a number of a version. -/
def versionNumber (start : Mark) : Scan Nat := do
  need 1
  let (length, value) ← loop (fun (length, value) => do
    let c ← next
    if c.isDigit then
      if versionDigits ≤ length then fail .longVersion start
      skip
      need 1
      return ((length + 1, value * 10 + (c.toNat - 0x30)), true)
    else return ((length, value), false)) (0, 0)
  if length = 0 then fail .missingVersion start
  return value

/-- Reads what comes after `%YAML`. -/
def versionDirective (start : Mark) : Scan TokenKind := do
  skipWhile isBlank
  let major ← versionNumber start
  if (← next) ≠ '.' then fail .versionPoint start
  skip
  return .version major (← versionNumber start)

/-- Reads what comes after `%TAG`. -/
def handleDirective (start : Mark) : Scan TokenKind := do
  skipWhile isBlank
  let handle ← tagHandle start true
  need 1
  if !isBlank (← next) then fail .tagBlank start
  skipWhile isBlank
  let expansion ← tagCharacters start [] false
  need 1
  if !isGap (← next) then fail .tagEnd start
  return .handle handle expansion

/-- Reads a directive with the rest of its line. -/
def directive : Scan TokenKind := do
  let start := (← get).mark
  skip
  let name ← takeWhile isNameCharacter
  if name.isEmpty then fail .emptyDirectiveName start
  if !isGap (← next) then fail .directiveNameEnd start
  let kind ←
    if textOf name = Text.utf8 "YAML" then versionDirective start
    else if textOf name = Text.utf8 "TAG" then handleDirective start
    else fail .unknownDirective start
  skipWhile isBlank
  if (← next) = '#' then skipLine
  let c ← next
  if !isBreakOrEnd c then fail .directiveEnd start
  if isBreak c then
    need 2
    skipBreak
  return kind

end SqlStubs.Yaml.Scan
