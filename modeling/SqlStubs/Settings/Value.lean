import SqlStubs.Literal.Binary64

/-!
# Values of settings

A value may be given in another form than the one that a setting needs: a number for a text, a text
for a number, either for a truth value.  It is converted as far as it makes sense; a missing value
is empty, false or zero.
-/

namespace SqlStubs

/-- The forms of values that no setting can use. -/
inductive OtherForm where
  | timestamp | sequence | mapping
deriving Repr, DecidableEq

/-- The name of a form. -/
def OtherForm.name : OtherForm → Text
  | timestamp => Text.utf8 "time.Time"
  | sequence => Text.utf8 "[]interface \x7b\x7d"
  | mapping => Text.utf8 "map[string]interface \x7b\x7d"

/-- A value as it is given. -/
inductive Value where
  | null
  | boolean (b : Bool)
  | integer (n : Int)
  | float (x : Binary64)
  | text (s : Text)
  /-- A value of which only the form matters. -/
  | other (form : OtherForm)
deriving Repr, DecidableEq

/-- The forms that settings need. -/
inductive ValueForm where
  | string | bool | int
deriving Repr, DecidableEq

/-- The name of a form. -/
def ValueForm.name : ValueForm → Text
  | string => Text.utf8 "string"
  | bool => Text.utf8 "bool"
  | int => Text.utf8 "int"

/-- Why a value cannot be converted. -/
inductive ConversionFault where
  /-- A text that does not spell a truth value. -/
  | boolean (fault : LiteralFault)
  /-- A text that does not spell an integer. -/
  | integer (fault : LiteralFault)
  /-- A value of a form that cannot be converted to the one that is needed. -/
  | form (needed : ValueForm) (given : OtherForm)
deriving Repr, DecidableEq

/-- The wording of a conversion that fails. -/
def ConversionFault.message : ConversionFault → Text
  | boolean fault =>
    Text.utf8 "cannot parse value as 'bool': strconv.ParseBool: " ++ fault.message
  | integer fault =>
    Text.utf8 "cannot parse value as 'int': strconv.ParseInt: " ++ fault.message
  | form needed given =>
    Text.utf8 "expected type '" ++ needed.name ++ Text.utf8 "', got unconvertible type '"
      ++ given.name ++ Text.utf8 "'"

namespace Value

/-- The value as a text. -/
def asText : Value → Except ConversionFault Text
  | null => .ok []
  | boolean b => .ok (Text.utf8 (if b then "1" else "0"))
  | integer n => .ok (Text.decimalInt n)
  | float x => .ok x.decimal
  | text s => .ok s
  | other given => .error (.form .string given)

/-- The value as a truth value. -/
def asBool : Value → Except ConversionFault Bool
  | null => .ok false
  | boolean b => .ok b
  | integer n => .ok (n ≠ 0)
  | float x => .ok x.isNonzero
  | text s => if s.isEmpty then .ok false else (Literal.boolean s).mapError .boolean
  | other given => .error (.form .bool given)

/-- The value as an integer of 64 bits. -/
def asInt : Value → Except ConversionFault Int
  | null => .ok 0
  | boolean b => .ok (if b then 1 else 0)
  | integer n => .ok (Int.bmod n Literal.wordLimit)
  | float x => .ok x.truncated
  | text s => if s.isEmpty then .ok 0 else (Literal.integer s).mapError .integer
  | other given => .error (.form .int given)

end Value

end SqlStubs
