import SqlStubs.Yaml.Token.Folding

/-!
# Quoted scalars

Between apostrophes only a doubled apostrophe stands for something else, namely one.  Between double
quotes a backslash begins an escape; before a line break it takes the break away.
-/

namespace SqlStubs.Yaml

/-- What stands for an escaped character. -/
inductive Escape where
  | character (c : Char)
  /-- The code is given by so many hexadecimal digits. -/
  | code (digits : Nat)
deriving Repr, DecidableEq

/-- What a character after a backslash means. -/
def escape? (c : Char) : Option Escape :=
  match c with
  | '0' => some (.character '\x00')
  | 'a' => some (.character '\x07')
  | 'b' => some (.character '\x08')
  | 't' => some (.character '\t')
  | '\t' => some (.character '\t')
  | 'n' => some (.character '\n')
  | 'v' => some (.character '\x0b')
  | 'f' => some (.character '\x0c')
  | 'r' => some (.character '\r')
  | 'e' => some (.character '\x1b')
  | ' ' => some (.character ' ')
  | '"' => some (.character '"')
  | '\x27' => some (.character '\x27')
  | '\\' => some (.character '\\')
  | 'N' => some (.character '\u0085')
  | '_' => some (.character '\u00a0')
  | 'L' => some (.character '\u2028')
  | 'P' => some (.character '\u2029')
  | 'x' => some (.code 2)
  | 'u' => some (.code 4)
  | 'U' => some (.code 8)
  | _ => none

namespace Scan

/-- Reads so many hexadecimal digits, of a scalar that begins at `start`. -/
def escapedCode (start : Mark) (digits : Nat) : Scan Char := do
  need digits
  let unread := (← get).source.unread.take digits
  let code? := unread.foldl (fun n c => do return (← n) * 16 + (← hexDigit? c)) (some 0)
  match code? with
  | none => fail .hexadecimal start
  | some code =>
    if isWithin 0xD800 0xDFFF code || 0x10FFFF < code then fail .escapeCode start
    else
      skipMany digits
      return Char.ofNat code

/-- Reads a word between quotes: all up to a gap, the closing quote or an escaped line break. -/
def quotedWord (quote : Char) (start : Mark) (f : Folding) : Scan Folding :=
  loop (fun f => do
    let c ← next
    let d ← ahead 1
    if isGap c then return (f, false)
    else if c = quote then
      if quote = '\x27' && d = quote then
        skipMany 2
        need 2
        return (f.push quote, true)
      else return (f, false)
    else if quote = '"' && c = '\\' then
      if isBreak d then
        need 3
        skip
        skipBreak
        return ({ f with afterBreak := true }, false)
      else
        match escape? d with
        | none => fail .unknownEscape start
        | some (.character e) =>
          skipMany 2
          need 2
          return (f.push e, true)
        | some (.code digits) =>
          skipMany 2
          let e ← escapedCode start digits
          need 2
          return (f.push e, true)
    else
      let f := f.push (← take)
      need 2
      return (f, true)) f

/-- Reads a scalar between quotes. -/
def quotedScalar : Scan TokenKind := do
  let start := (← get).mark
  let quote ← take
  let f ← loop (fun f => do
    need 4
    if ← atDocumentMark then fail .documentMark start
    if isEnd (← next) then fail .endOfStream start
    let f ← quotedWord quote start f
    need 1
    if (← next) = quote then return (f, false)
    else
      let f ← foldGap (pure ()) f
      return (f.join, true)) {}
  skip
  return .scalar (textOf f.text) .marked

end Scan

end SqlStubs.Yaml
