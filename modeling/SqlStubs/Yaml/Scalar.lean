import SqlStubs.Literal.Binary64
import SqlStubs.Yaml.Fault
import SqlStubs.Yaml.Scalar.Base64
import SqlStubs.Yaml.Scalar.Timestamp

/-!
# Scalars

What a scalar means follows from its tag.  A plain scalar without a tag has the tag of what it looks
like (`Scalar.ofPlain`): a truth value, a number, a point in time or nothing, and else a text.
-/

namespace SqlStubs.Yaml

/-- What a scalar means. -/
inductive Scalar where
  | null
  | boolean (b : Bool)
  | integer (n : Int)
  | float (x : Binary64)
  | timestamp (t : Timestamp)
  | text (s : Text)
deriving Repr, DecidableEq

namespace Scalar

/-! ### Tags -/

/-- The beginning of the tags that are written with two exclamation marks for short. -/
def longTagStart : Text := Text.utf8 "tag:yaml.org,2002:"

/-- A tag in its short form. -/
def shortTag (tag : Text) : Text :=
  if longTagStart.isPrefixOf tag then Text.utf8 "!!" ++ tag.drop longTagStart.length else tag

/-- The tag of texts. -/
def textTag : Text := Text.utf8 "!!str"

/-- The tag of a key whose mapping is to be merged. -/
def mergeTag : Text := Text.utf8 "!!merge"

/-- The tag of nothing. -/
def nullTag : Text := Text.utf8 "!!null"

/-- The tag of what a scalar means. -/
def tag : Scalar → Text
  | null => nullTag
  | boolean _ => Text.utf8 "!!bool"
  | integer _ => Text.utf8 "!!int"
  | float _ => Text.utf8 "!!float"
  | timestamp _ => Text.utf8 "!!timestamp"
  | text _ => textTag

/-! ### Plain scalars -/

/-- The plain scalars that are words. -/
def words : List (Scalar × List String) :=
  [(.boolean true, ["true", "True", "TRUE"]),
    (.boolean false, ["false", "False", "FALSE"]),
    (.null, ["", "~", "null", "Null", "NULL"]),
    (.float .nan, [".nan", ".NaN", ".NAN"]),
    (.float (.infinity false), [".inf", ".Inf", ".INF", "+.inf", "+.Inf", "+.INF"]),
    (.float (.infinity true), ["-.inf", "-.Inf", "-.INF"])]

/-- The meaning of a word. -/
def word? (s : Text) : Option Scalar :=
  (words.find? fun (_, spellings) => (spellings.map Text.utf8).contains s).map (·.1)

/-- A signed integer in a base that letters say.  The sign follows the letters. -/
def signedAfterBase? : Text → Option Int
  | 0x30 :: letter :: sign :: digits =>
    if (letter = 0x62 || letter = 0x6F) && (sign = 0x2B || sign = 0x2D) && !digits.isEmpty then
      match Literal.accumulate (if letter = 0x62 then 2 else 8) 0 digits with
      | .error _ => none
      | .ok n =>
        if sign = 0x2D then (if n ≤ Literal.signLimit then some (-(n : Int)) else none)
        else (if n < Literal.signLimit then some n else none)
    else none
  | _ => none

/-- The meaning of a plain number.  Underscores in it do not count; an integer may use all 64
bits. -/
def number? (s : Text) : Option Scalar :=
  let plain := s.filter (· ≠ 0x5F)
  match Literal.integer plain with
  | .ok n => some (.integer n)
  | .error _ =>
    match Literal.natural plain with
    | .ok n => some (.integer n)
    | .error _ =>
      match Binary64.ofDecimal? plain with
      | some x => some (.float x)
      | none => (signedAfterBase? plain).map .integer

/-- Whether every underscore stands between two digits; `afterDigit` says what came before. -/
def underscoresBetweenDigits (afterDigit : Bool) : Text → Bool
  | [] => true
  | 0x5F :: d :: s =>
    afterDigit && Text.isDigit d && underscoresBetweenDigits true s
  | [0x5F] => false
  | b :: s => underscoresBetweenDigits (Text.isDigit b) s

/-- The meaning of a plain number that begins with a point. -/
def fraction? (s : Text) : Option Scalar :=
  if underscoresBetweenDigits false s then
    (Binary64.ofDecimal? (s.filter (· ≠ 0x5F))).map .float
  else none

/-- What a plain scalar looks like; only some scalars may be points in time. -/
def resolve (timestamps : Bool) (s : Text) : Scalar :=
  match word? s, s with
  | some v, _ => v
  | none, 0x2E :: _ => (fraction? s).getD (.text s)
  | none, b :: _ =>
    if Text.isDigit b || b = 0x2B || b = 0x2D then
      match if timestamps then Timestamp.parse? s else none with
      | some t => .timestamp t
      | none => (number? s).getD (.text s)
    else .text s
  | none, [] => .null

/-- The meaning of a plain scalar without a tag. -/
def ofPlain (s : Text) : Scalar := resolve true s

/-! ### Scalars with a tag -/

/-- The tags that say how a scalar is to be read, besides that of texts. -/
def readingTags : List String := ["!!bool", "!!int", "!!float", "!!null", "!!timestamp"]

/-- The meaning of a scalar with a short tag.  An unknown tag leaves it a text; an integer may be
given where a number with a fraction is asked for. -/
def ofTagged (tag s : Text) : Except Fault Scalar :=
  if tag = Text.utf8 "!!binary" then
    match Base64.decode? s with
    | some bytes => .ok (.text bytes)
    | none => .error .base64
  else if !(readingTags.map Text.utf8).contains tag then .ok (.text s)
  else
    let found := resolve (tag = Text.utf8 "!!timestamp") s
    if found.tag = tag then .ok found
    else
      match found with
      | .integer n =>
        if tag = Text.utf8 "!!float" && n < Literal.signLimit then
          .ok (.float ((Binary64.nearest? (n < 0) n.natAbs 1).getD .nan))
        else .error (.wrongTag found.tag s tag)
      | _ => .error (.wrongTag found.tag s tag)

end Scalar

end SqlStubs.Yaml
