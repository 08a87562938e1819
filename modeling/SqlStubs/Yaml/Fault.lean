import SqlStubs.Text.Quoted
import SqlStubs.Yaml.Characters

/-!
# What can be wrong with a YAML document

Faults are found at four stages: in the bytes, in the tokens, in how tokens follow each other, and
in what the document means.  The first one found decides, except for values of a wrong form, which
are collected (`Mismatch`).  A message shows a line only if it is not the first; faults of tokens
count lines from one, faults of their order from zero.
-/

namespace SqlStubs.Yaml

/-- A place in a document, all counted from zero. -/
structure Mark where
  /-- The number of characters before it. -/
  index : Nat := 0
  line : Nat := 0
  column : Nat := 0
deriving Repr, DecidableEq

/-- What can be wrong with a token. -/
inductive TokenProblem where
  | missingColon
  | keyNotAllowed | valueNotAllowed | entryNotAllowed
  | tooDeep
  | noToken
  | emptyDirectiveName | directiveNameEnd | unknownDirective | directiveEnd
  | longVersion | missingVersion | versionPoint
  | tagHandle | tagUri | tagClose | tagEnd | tagBlank
  | uriEscape | uriLeadingByte | uriTrailingByte
  | anchorName
  | zeroIndent | headerEnd | tabAsIndent
  | documentMark | endOfStream | unknownEscape | hexadecimal | escapeCode
  | tabInIndent
deriving Repr, DecidableEq

/-- The wording of a problem. -/
def TokenProblem.message : TokenProblem → String
  | missingColon => "could not find expected ':'"
  | keyNotAllowed => "mapping keys are not allowed in this context"
  | valueNotAllowed => "mapping values are not allowed in this context"
  | entryNotAllowed => "block sequence entries are not allowed in this context"
  | tooDeep => "exceeded max depth of 10000"
  | noToken => "found character that cannot start any token"
  | emptyDirectiveName => "could not find expected directive name"
  | directiveNameEnd => "found unexpected non-alphabetical character"
  | unknownDirective => "found unknown directive name"
  | directiveEnd => "did not find expected comment or line break"
  | longVersion => "found extremely long version number"
  | missingVersion => "did not find expected version number"
  | versionPoint => "did not find expected digit or '.' character"
  | tagHandle => "did not find expected '!'"
  | tagUri => "did not find expected tag URI"
  | tagClose => "did not find the expected '>'"
  | tagEnd => "did not find expected whitespace or line break"
  | tagBlank => "did not find expected whitespace"
  | uriEscape => "did not find URI escaped octet"
  | uriLeadingByte => "found an incorrect leading UTF-8 octet"
  | uriTrailingByte => "found an incorrect trailing UTF-8 octet"
  | anchorName => "did not find expected alphabetic or numeric character"
  | zeroIndent => "found an indentation indicator equal to 0"
  | headerEnd => "did not find expected comment or line break"
  | tabAsIndent => "found a tab character where an indentation space is expected"
  | documentMark => "found unexpected document indicator"
  | endOfStream => "found unexpected end of stream"
  | unknownEscape => "found unknown escape character"
  | hexadecimal => "did not find expected hexdecimal number"
  | escapeCode => "found invalid Unicode character escape code"
  | tabInIndent => "found a tab character that violates indentation"

/-- What can be wrong with the order of tokens. -/
inductive OrderProblem where
  | documentStart | repeatedVersion | otherVersion | repeatedHandle | unknownHandle
  | content | blockEntry | key
  | sequenceEnd | mappingEnd
deriving Repr, DecidableEq

/-- The wording of a problem. -/
def OrderProblem.message : OrderProblem → String
  | documentStart => "did not find expected <document start>"
  | repeatedVersion => "found duplicate %YAML directive"
  | otherVersion => "found incompatible YAML document"
  | repeatedHandle => "found duplicate %TAG directive"
  | unknownHandle => "found undefined tag handle"
  | content => "did not find expected node content"
  | blockEntry => "did not find expected '-' indicator"
  | key => "did not find expected key"
  | sequenceEnd => "did not find expected ',' or ']'"
  | mappingEnd => "did not find expected ',' or '\x7d'"

/-- A value of another form than the one that is asked for, or a key that is given twice.  Lines are
counted from one. -/
inductive Mismatch where
  /-- A value with a tag, where a mapping or a text is asked for. -/
  | form (line : Nat) (tag value wanted : Text)
  | repeatedKey (key : Text) (first second : Nat)
deriving Repr, DecidableEq

/-- The tag of sequences. -/
def sequenceTag : Text := Text.utf8 "!!seq"

/-- The tag of mappings. -/
def mappingTag : Text := Text.utf8 "!!map"

/-- The first characters of a long value. -/
def excerpt (value : Text) : Text :=
  if 10 < value.length then value.take 7 ++ Text.utf8 "..." else value

/-- The wording of a mismatch. -/
def Mismatch.message : Mismatch → Text
  | form line tag value wanted =>
    let shown :=
      if tag = sequenceTag || tag = mappingTag then value
      else Text.utf8 " `" ++ excerpt value ++ Text.utf8 "`"
    Text.utf8 "line " ++ Text.decimal line ++ Text.utf8 ": cannot unmarshal " ++ tag ++ shown
      ++ Text.utf8 " into " ++ wanted
  | repeatedKey key first second =>
    Text.utf8 "line " ++ Text.decimal second ++ Text.utf8 ": mapping key " ++ Text.quoted key
      ++ Text.utf8 " already defined at line " ++ Text.decimal first

/-- What is wrong with a document. -/
inductive Fault where
  | encoding (fault : EncodingFault)
  /-- A token that begins at `start` is wrong at `place`. -/
  | token (problem : TokenProblem) (start place : Mark)
  /-- A token at `place` is wrong within what begins at `start`. -/
  | order (problem : OrderProblem) (start place : Mark)
  | unknownAnchor (name : Text)
  /-- A value that an alias makes a part of itself. -/
  | endless (name : Text)
  /-- Aliases that make a document much larger than it is written. -/
  | tooManyAliases
  /-- A value with a tag that does not fit it. -/
  | wrongTag (found value tag : Text)
  | base64
  /-- A merge of something that is no mapping. -/
  | merge
  /-- A sequence or mapping as a key, as it is shown. -/
  | compositeKey (shown : Text)
  /-- A sequence or mapping among the keys of a mapping that another is merged into. -/
  | mergedKey (form : Text)
  | mismatches (all : List Mismatch)
deriving Repr, DecidableEq

namespace Fault

/-- The line that a message shows: that of `start`, or else that of `place`, each if it is not the
first one, with `shift` added. -/
def lineText (shift : Nat) (start place : Mark) : Text :=
  let line := if start.line ≠ 0 then start.line else place.line
  if line = 0 then []
  else Text.utf8 "line " ++ Text.decimal (line + shift) ++ Text.utf8 ": "

/-- The wording of a fault. -/
def message (fault : Fault) : Text :=
  Text.utf8 "yaml: " ++ match fault with
  | encoding fault => Text.utf8 fault.message
  | token problem start place => lineText 1 start place ++ Text.utf8 problem.message
  | order problem start place => lineText 0 start place ++ Text.utf8 problem.message
  | unknownAnchor name =>
    Text.utf8 "unknown anchor '" ++ name ++ Text.utf8 "' referenced"
  | endless name => Text.utf8 "anchor '" ++ name ++ Text.utf8 "' value contains itself"
  | tooManyAliases => Text.utf8 "document contains excessive aliasing"
  | wrongTag found value tag =>
    Text.utf8 "cannot decode " ++ found ++ Text.utf8 " `" ++ value ++ Text.utf8 "` as a " ++ tag
  | base64 => Text.utf8 "!!binary value contains invalid base64 data"
  | merge => Text.utf8 "map merge requires map or sequence of maps as the value"
  | compositeKey shown => Text.utf8 "invalid map key: " ++ shown
  | mergedKey form => Text.utf8 "runtime error: hash of unhashable type " ++ form
  | mismatches all =>
    Text.utf8 "unmarshal errors:" ++ all.flatMap fun m => Text.utf8 "\n  " ++ m.message

end Fault

end SqlStubs.Yaml
