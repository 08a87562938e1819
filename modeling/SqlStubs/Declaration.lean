import SqlStubs.Token

/-!
# Declarations

What a source declares: functions and aggregates, with the comments and line breaks between them.
Types and default values are kept as the text in which they are shown, since nothing is computed
from them.
-/

namespace SqlStubs

/-! ### Arguments -/

/-- The mode of an argument, if one is written. -/
inductive ArgumentMode where
  | unmarked | input | output | inputOutput | variadic
deriving Repr, DecidableEq

/-- The name of a mode. -/
def ArgumentMode.name : ArgumentMode → String
  | .unmarked => "none"
  | .input => "in"
  | .output => "out"
  | .inputOutput => "inout"
  | .variadic => "variadic"

/-- A formal argument.  Its name and its default are empty where it has none. -/
structure Argument where
  mode : ArgumentMode := .unmarked
  name : Text := []
  type : Text
  default : Text := []
deriving Repr, DecidableEq

/-- An argument as a stub shows it: type, name and default, without the mode. -/
def Argument.text (a : Argument) : Text :=
  a.type
    ++ (if a.name.isEmpty then [] else Text.utf8 " " ++ a.name)
    ++ (if a.default.isEmpty then [] else Text.utf8 " = " ++ a.default)

/-- A list of arguments as a stub shows it between its parentheses. -/
def Argument.listText (args : List Argument) : Text :=
  Text.join (Text.utf8 ", ") (args.map (·.text))

/-! ### Functions -/

/-- A result type that a function declares. -/
structure ReturnClause where
  /-- Whether the function gives a set of such values. -/
  setOf : Bool
  type : Text
deriving Repr, DecidableEq

/-- A declared function.  The name is unqualified. -/
structure FunctionDeclaration where
  name : Text
  arguments : List Argument
  returns : Option ReturnClause
deriving Repr, DecidableEq

/-! ### Aggregates -/

/-- The kinds of aggregate options. -/
inductive OptionKind where
  /-- The state transition function. -/
  | sfunc
  /-- A function that combines states. -/
  | prefunc
  /-- The function that makes the result from the last state. -/
  | finalfunc
  /-- The type of the state. -/
  | stype
  /-- The first state. -/
  | initcond
deriving Repr, DecidableEq

namespace OptionKind

/-- The keyword of a kind of options. -/
def name : OptionKind → String
  | sfunc => "SFUNC"
  | prefunc => "PREFUNC"
  | finalfunc => "FINALFUNC"
  | stype => "STYPE"
  | initcond => "INITCOND"

/-- The kinds by number. -/
def numbered : List OptionKind := [sfunc, prefunc, finalfunc, stype, initcond]

/-- The keyword of the kind with a number. -/
def nameOfNumber (n : Int) : String :=
  match n with
  | .ofNat n => (numbered[n]?).elim "UNKNOWN" name
  | .negSucc _ => "UNKNOWN"

end OptionKind

/-- An option of an aggregate.  The value is the unqualified name of a function, a type or an
expression, as the kind says. -/
structure AggregateOption where
  location : Location
  kind : OptionKind
  value : Text
deriving Repr, DecidableEq

/-- A declared aggregate.  The name is unqualified. -/
structure AggregateDeclaration where
  name : Text
  /-- Whether it is declared with `(*)`. -/
  wildcard : Bool
  arguments : List Argument
  options : List AggregateOption
deriving Repr, DecidableEq

/-! ### Statements -/

/-- What a statement is. -/
inductive StatementBody where
  /-- A lone semicolon. -/
  | empty
  /-- A comment, with its delimiters. -/
  | comment (text : Text)
  /-- A line break. -/
  | newline
  | function (declaration : FunctionDeclaration)
  | aggregate (declaration : AggregateDeclaration)
deriving Repr, DecidableEq

/-- A statement and the place of its first token. -/
structure Statement where
  location : Location
  body : StatementBody
deriving Repr, DecidableEq

end SqlStubs
