import SqlStubs.Yaml.Scalar

/-!
# Data

What a document means: scalars, sequences and mappings.  `Datum.shown` is how messages show a datum.
-/

namespace SqlStubs.Yaml

/-- What a node means. -/
inductive Datum where
  | scalar (s : Scalar)
  | sequence (items : List Datum)
  /-- A mapping, of which all keys are texts if it is `named`.  Of several entries with one key the
  last one counts. -/
  | mapping (named : Bool) (entries : List (Scalar × Datum))
deriving Repr

/-! ### Scalars as messages show them -/

namespace Scalar

/-- A scalar as messages show it. -/
def shown : Scalar → Text
  | null => Text.utf8 "interface \x7b\x7d(nil)"
  | boolean b => Text.utf8 (if b then "true" else "false")
  | integer n =>
    if n < Literal.signLimit then Text.decimalInt n
    else Text.utf8 "0x" ++ Text.hexadecimal 16 n.toNat
  | float x => x.brief
  | timestamp t => t.shown
  | text s => Text.quoted s

/-- Whether a text comes before another one byte by byte. -/
def textBefore : Text → Text → Bool
  | _, [] => false
  | [], _ :: _ => true
  | a :: s, b :: t => a < b || (a = b && textBefore s t)

/-- The place of a kind of scalars among the others. -/
def rank : Scalar → Nat
  | null => 0
  | boolean _ => 1
  | integer _ => 2
  | float _ => 3
  | timestamp _ => 4
  | text _ => 5

/-- Whether a key is shown before another one. -/
def before : Scalar → Scalar → Bool
  | boolean a, boolean b => !a && b
  | integer a, integer b => a < b
  | text s, text t => textBefore s t
  | a, b => a.rank < b.rank

end Scalar

/-! ### Data as messages show them -/

namespace Datum

/-- The name of the form of sequences. -/
def sequenceForm : Text := Text.utf8 "[]interface \x7b\x7d"

/-- The name of the form of mappings. -/
def mappingForm (named : Bool) : Text :=
  Text.utf8 (if named then "map[string]interface \x7b\x7d"
    else "map[interface \x7b\x7d]interface \x7b\x7d")

/-- The scalar that a datum is, or the name of its form. -/
def scalar? : Datum → Except Text Scalar
  | scalar s => .ok s
  | sequence _ => .error sequenceForm
  | mapping named _ => .error (mappingForm named)

/-- Entries with one more, which stands before those with a greater key and replaces one with the
same key. -/
def insertShown (key : Scalar) (value : Text) : List (Scalar × Text) → List (Scalar × Text)
  | [] => [(key, value)]
  | (k, v) :: rest =>
    if k = key then (key, value) :: rest
    else if key.before k then (key, value) :: (k, v) :: rest
    else (k, v) :: insertShown key value rest

/-- Texts between braces after the name of a form. -/
def braced (form : Text) (parts : List Text) : Text :=
  form ++ [0x7B] ++ Text.join (Text.utf8 ", ") parts ++ [0x7D]

mutual

/-- A datum as messages show it; the entries of mappings are in the order of their keys. -/
def shown : Datum → Text
  | scalar s => s.shown
  | sequence items => braced sequenceForm (shownItems items)
  | mapping named entries =>
    let sorted := (shownEntries entries).foldl (fun l (key, value) => insertShown key value l) []
    braced (mappingForm named) (sorted.map fun (key, value) => key.shown ++ [0x3A] ++ value)

/-- The items of a sequence as messages show them. -/
def shownItems : List Datum → List Text
  | [] => []
  | d :: rest => d.shown :: shownItems rest

/-- The values of a mapping as messages show them. -/
def shownEntries : List (Scalar × Datum) → List (Scalar × Text)
  | [] => []
  | (key, d) :: rest => (key, d.shown) :: shownEntries rest

end

end Datum

end SqlStubs.Yaml
