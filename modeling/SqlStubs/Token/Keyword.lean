import SqlStubs.Text

/-!
# Keywords

The words with a meaning of their own in a declaration.  A reserved word is always a keyword; every
other keyword may also be used as a name.
-/

namespace SqlStubs

/-- A keyword: first the reserved ones, then those that may be names. -/
inductive Keyword where
  | as_ | create | default_ | false_ | not_ | null | on | or_ | returns | true_ | with_ | without
  | aggregate | bit | called | character | combinefunc | cost | definer | double | external
  | finalfunc | function | immutable | in_ | initcond | inout | input | invoker | language
  | leakproof | ordered | out | precision | prefunc | replace | rows | security | setof | sfunc
  | sortop | stable | strict | stype | time | timestamp | variadic | varying | volatile | window
  | zone
deriving Repr, DecidableEq

namespace Keyword

/-- The reserved keywords in order. -/
def reservedWords : List Keyword :=
  [as_, create, default_, false_, not_, null, on, or_, returns, true_, with_, without]

/-- The keywords that may be names, in order. -/
def otherWords : List Keyword :=
  [aggregate, bit, called, character, combinefunc, cost, definer, double, external, finalfunc,
    function, immutable, in_, initcond, inout, input, invoker, language, leakproof, ordered, out,
    precision, prefunc, replace, rows, security, setof, sfunc, sortop, stable, strict, stype, time,
    timestamp, variadic, varying, volatile, window, zone]

/-- Whether a keyword can never be a name. -/
def isReserved (k : Keyword) : Bool := reservedWords.contains k

/-- The keyword in lower case. -/
def word : Keyword → String
  | as_ => "as"
  | create => "create"
  | default_ => "default"
  | false_ => "false"
  | not_ => "not"
  | null => "null"
  | on => "on"
  | or_ => "or"
  | returns => "returns"
  | true_ => "true"
  | with_ => "with"
  | without => "without"
  | aggregate => "aggregate"
  | bit => "bit"
  | called => "called"
  | character => "character"
  | combinefunc => "combinefunc"
  | cost => "cost"
  | definer => "definer"
  | double => "double"
  | external => "external"
  | finalfunc => "finalfunc"
  | function => "function"
  | immutable => "immutable"
  | in_ => "in"
  | initcond => "initcond"
  | inout => "inout"
  | input => "input"
  | invoker => "invoker"
  | language => "language"
  | leakproof => "leakproof"
  | ordered => "ordered"
  | out => "out"
  | precision => "precision"
  | prefunc => "prefunc"
  | replace => "replace"
  | rows => "rows"
  | security => "security"
  | setof => "setof"
  | sfunc => "sfunc"
  | sortop => "sortop"
  | stable => "stable"
  | strict => "strict"
  | stype => "stype"
  | time => "time"
  | timestamp => "timestamp"
  | variadic => "variadic"
  | varying => "varying"
  | volatile => "volatile"
  | window => "window"
  | zone => "zone"

/-- The keyword in upper case, as messages show it. -/
def name (k : Keyword) : Text :=
  (Text.utf8 k.word).map fun b => if Text.isLower b then b - 0x20 else b

/-- Every keyword with its text in lower case. -/
def table : List (Text × Keyword) :=
  (reservedWords ++ otherWords).map fun k => (Text.utf8 k.word, k)

/-- The keyword that a text in lower case spells. -/
def ofWord? (word : Text) : Option Keyword := table.lookup word

/-- The keyword that a text spells in any mix of cases. -/
def ofText? (s : Text) : Option Keyword := ofWord? (Text.lowercase s)

end Keyword

end SqlStubs
