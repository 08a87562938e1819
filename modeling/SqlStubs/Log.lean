import SqlStubs.Text.Quoted

/-!
# Log records

A record has a level, a message and named fields.  A log line shows them as `key=value` pairs; a
value is quoted where it could not be told apart from what is around it.
-/

namespace SqlStubs

/-- How important a record is. -/
inductive Level where
  | debug | info | warn
deriving Repr, DecidableEq

namespace Level

/-- The name of a level. -/
def name : Level → String
  | debug => "DEBUG"
  | info => "INFO"
  | warn => "WARN"

/-- The levels by importance. -/
def rank : Level → Nat
  | debug => 0
  | info => 1
  | warn => 2

end Level

/-- The value of a field. -/
inductive FieldValue where
  | number (n : Int)
  | text (s : Text)
deriving Repr, DecidableEq

/-- A log record. -/
structure LogRecord where
  level : Level
  message : String
  fields : List (String × FieldValue)
deriving Repr, DecidableEq

namespace Log

/-- Whether a piece of a text makes quotes necessary: a blank, `=`, a quote, a control character
other than DEL, or something that is not printable. -/
def needsQuotes : Text.Utf8.Piece → Bool
  | .stray _ => true
  | .character code _ =>
    if code < 0x80 then code ≤ 0x20 || code = 0x3D || code = 0x22
    else code = 0xFFFD || !Text.isPrintable code

/-- A text as a log line shows it. -/
def valueText (s : Text) : Text :=
  if s.isEmpty || (Text.Utf8.pieces s).any needsQuotes then Text.quoted s else s

/-- The value of a field as a log line shows it. -/
def fieldText : FieldValue → Text
  | .number n => Text.decimalInt n
  | .text s => valueText s

/-- The record as a line with a line break at its end. -/
def line (r : LogRecord) : Text :=
  let pairs := ("level", Text.utf8 r.level.name) :: ("msg", valueText (Text.utf8 r.message))
    :: r.fields.map fun (key, value) => (key, fieldText value)
  Text.join (Text.utf8 " ") (pairs.map fun (key, value) => Text.utf8 key ++ Text.utf8 "=" ++ value)
    ++ [0x0A]

/-- The lines of the records that are at least as important as `least`. -/
def lines (least : Level) (records : List LogRecord) : Text :=
  (records.filter fun r => least.rank ≤ r.level.rank).flatMap line

end Log

end SqlStubs
