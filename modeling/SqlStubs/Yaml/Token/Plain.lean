import SqlStubs.Yaml.Token.Folding

/-!
# Plain scalars

A plain scalar goes on, over several lines if they are indented far enough, until something that
cannot be part of it: a comment, a colon before a gap, a mark between documents, or within a flow
collection one of its signs.
-/

namespace SqlStubs.Yaml

/-- The signs that end a plain scalar within a flow collection. -/
def isFlowSign (c : Char) : Bool :=
  c = ',' || c = '?' || c = '[' || c = ']' || c = '\x7b' || c = '\x7d'

namespace Scan

/-- Whether a plain scalar ends before the next character. -/
def atPlainEnd : Scan Bool := do
  let r ← get
  let c := r.source.ahead 0
  return (c = ':' && isGap (r.source.ahead 1)) || (0 < r.flowDepth && isFlowSign c)

/-- Reads a word of a plain scalar.  It may be empty. -/
def plainWord (f : Folding) : Scan Folding :=
  loop (fun f => do
    if isGap (← next) || (← atPlainEnd) then return (f, false)
    else
      let f := f.join.push (← take)
      need 2
      return (f, true)) f

/-- Reads a plain scalar. -/
def plainScalar : Scan TokenKind := do
  let r ← get
  let start := r.mark
  let noTab : Scan Unit := do
    if (← get).mark.column < r.margin && (← next) = '\t' then fail .tabInIndent start
  let f ← loop (fun f => do
    need 4
    if (← atDocumentMark) || (← next) = '#' then return (f, false)
    else
      let f ← plainWord f
      let c ← next
      if isBlank c || isBreak c then
        let f ← foldGap noTab f
        let r ← get
        return (f, 0 < r.flowDepth || r.margin ≤ r.mark.column)
      else return (f, false)) {}
  if f.afterBreak then modify fun r => { r with keyAllowed := true }
  return .scalar (textOf f.text) .plain

end Scan

end SqlStubs.Yaml
