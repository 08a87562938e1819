import SqlStubs.Parser

/-!
# The grammar of declarations

```
statement   → ";" | COMMENT | NEWLINE | create ";"
create      → CREATE [OR REPLACE] (function | aggregate)
function    → FUNCTION qualName "(" [funcArg ("," funcArg)*] ")" [RETURNS [SETOF] type] option*
funcArg     → [IN | OUT | INOUT | VARIADIC] arg
aggregate   → [ORDERED] AGGREGATE qualName "(" ("*" | arg ("," arg)*) ")"
              "(" setting ("," setting)* ")"
arg         → [name] type [default]
type        → base ("[" [INTEGER] "]")*
```

Each nonterminal is a relation between the tokens of a phrase and the value that is read off its
derivation.  A token is in its place by its kind alone, the words of every rule are spelled out, and
there is no lookahead beyond the phrase.  Of the definitions that the parser uses, this shares only
which kinds of tokens are names (`Kind.isName`) and what a name stands for (`unquote`).  Where the
rules would allow two readings of the same tokens, the one that counts is fixed by a condition on
the other:

* two names in front of an argument are its name and the start of its type, unless they are the two
  words of a type (`NameAndType.named`);
* a type that begins with `TIME` or `TIMESTAMP` is the time type and not a name
  (`BaseType.named`), and has its modifiers before the zone only (`BaseType.time`);
* `SETOF` after `RETURNS` is the mark of a set and not a type (`ResultClause.single`), and `NULL`
  after it belongs to an option, since no type begins with a reserved word;
* in the arguments of a function, a mode before a name is a mode and not a name or a type
  (`FormalArgument.unmarked`).

That two names never begin a type of one word needs no condition (`TypeName.exists_cons`).
-/

namespace SqlStubs.Grammar

variable {α : Type}

/-- The tokens are of these kinds, one by one. -/
def Spells (kinds : List Kind) (w : List Token) : Prop := w.map (·.kind) = kinds

/-! ### Repetition -/

/-- Any number of phrases, one after the other. -/
inductive Repeated (item : List Token → α → Prop) : List Token → List α → Prop
  | nil : Repeated item [] []
  | cons {w v : List Token} {a : α} {as : List α} (first : item w a) (others : Repeated item v as) :
      Repeated item (w ++ v) (a :: as)

/-- One phrase or several, with a token of kind `separator` between neighbours. -/
inductive Separated (separator : Kind) (item : List Token → α → Prop) :
    List Token → List α → Prop
  | one {w : List Token} {a : α} (only : item w a) : Separated separator item w [a]
  | more {w v : List Token} {s : Token} {a : α} {as : List α} (first : item w a)
      (mark : s.kind = separator) (others : Separated separator item v as) :
      Separated separator item (w ++ s :: v) (a :: as)

/-! ### Names -/

/-- A name: an identifier or a keyword that is not reserved, without its quotes. -/
inductive Name : List Token → Text → Prop
  | token {t : Token} (h : t.kind.isName = true) : Name [t] (unquote t.text)

/-- A name with any qualification, of which only the last part is kept. -/
inductive QualifiedName : List Token → Text → Prop
  | parts {w : List Token} {qualifiers : List Text} {name : Text}
      (h : Separated .dot Name w (qualifiers ++ [name])) : QualifiedName w name

/-! ### Types -/

/-- The types of two words, with the name that each is shown by. -/
inductive TwoWords : Kind → Kind → Text → Prop
  | doublePrecision : TwoWords (.keyword .double) (.keyword .precision) (Text.utf8 "float8")
  | characterVarying : TwoWords (.keyword .character) (.keyword .varying) (Text.utf8 "varchar")
  | bitVarying : TwoWords (.keyword .bit) (.keyword .varying) (Text.utf8 "varbit")

/-- The words of time, each with the name of its type. -/
inductive TimeWord : Kind → Text → Prop
  | time : TimeWord (.keyword .time) (Text.utf8 "time")
  | timestamp : TimeWord (.keyword .timestamp) (Text.utf8 "timestamp")

/-- `"(" INTEGER ("," INTEGER)* ")"`, or nothing. -/
inductive Modifiers : List Token → Prop
  | none : Modifiers []
  | some {l r : Token} {w : List Token} {units : List Unit} (left : l.kind = .leftParen)
      (sizes : Separated .comma (fun w _ => Spells [.integer] w) w units)
      (right : r.kind = .rightParen) : Modifiers (l :: (w ++ [r]))

/-- `(WITH | WITHOUT) TIME ZONE`, or nothing; the value is what it adds to the name of the type. -/
inductive Zone : List Token → Text → Prop
  | none : Zone [] []
  | zoned {w : List Token} (h : Spells [.keyword .with_, .keyword .time, .keyword .zone] w) :
      Zone w (Text.utf8 "tz")
  | unzoned {w : List Token} (h : Spells [.keyword .without, .keyword .time, .keyword .zone] w) :
      Zone w []

/-- A type without array brackets. -/
inductive BaseType : List Token → Text → Prop
  | twoWords {a b : Token} {w : List Token} {name : Text}
      (words : TwoWords a.kind b.kind name) (modifiers : Modifiers w) :
      BaseType (a :: b :: w) name
  | time {t : Token} {w v : List Token} {name suffix : Text} (word : TimeWord t.kind name)
      (modifiers : Modifiers w) (zone : Zone v suffix) : BaseType (t :: (w ++ v)) (name ++ suffix)
  | named {w v : List Token} {name : Text} (words : QualifiedName w name)
      (notTime : ∀ t ∈ w.head?, ∀ time, ¬TimeWord t.kind time) (modifiers : Modifiers v) :
      BaseType (w ++ v) name

/-- `"[" [INTEGER] "]"`. -/
inductive Bounds : List Token → Text → Prop
  | unbounded {w : List Token} (h : Spells [.leftBracket, .rightBracket] w) :
      Bounds w (Text.utf8 "[]")
  | bounded {l n r : Token} (h : Spells [.leftBracket, .integer, .rightBracket] [l, n, r]) :
      Bounds [l, n, r] (Text.utf8 "[" ++ n.text ++ Text.utf8 "]")

/-- A type. -/
inductive TypeName : List Token → Text → Prop
  | base {w v : List Token} {base : Text} {bounds : List Text} (type : BaseType w base)
      (arrays : Repeated Bounds v bounds) : TypeName (w ++ v) (base ++ bounds.flatten)

/-! ### Values -/

/-- A value without a cast. -/
inductive Operand : List Token → Text → Prop
  | signed {s t : Token} (sign : s.kind = .plus ∨ s.kind = .minus)
      (h : t.kind = .integer ∨ t.kind = .float ∨ t.kind.isName = true) :
      Operand [s, t] (s.text ++ t.text)
  | plain {t : Token}
      (h : t.kind ∈ [.integer, .float, .string, .keyword .null, .keyword .true_, .keyword .false_]
        ∨ t.kind.isName = true) :
      Operand [t] t.text

/-- A value, with a cast if one is written. -/
inductive Expression : List Token → Text → Prop
  | plain {w : List Token} {value : Text} (operand : Operand w value) : Expression w value
  | cast {w v : List Token} {c : Token} {value type : Text} (operand : Operand w value)
      (mark : c.kind = .doubleColon) (target : TypeName v type) :
      Expression (w ++ c :: v) (value ++ Text.utf8 "::" ++ type)

/-- `(DEFAULT | "=") expression`. -/
inductive MarkedDefault : List Token → Text → Prop
  | marked {m : Token} {w : List Token} {value : Text}
      (mark : m.kind = .keyword .default_ ∨ m.kind = .equals) (h : Expression w value) :
      MarkedDefault (m :: w) value

/-- A default value, in the open or in an escape, or nothing. -/
inductive DefaultClause : List Token → Text → Prop
  | none : DefaultClause [] []
  | plain {w : List Token} {value : Text} (h : MarkedDefault w value) : DefaultClause w value
  | escaped {o c : Token} {w : List Token} {value : Text} (left : o.kind = .escapeOpen)
      (h : MarkedDefault w value) (right : c.kind = .escapeClose) :
      DefaultClause (o :: (w ++ [c])) value

/-! ### Arguments -/

/-- `[name] type`; the name is empty where there is none. -/
inductive NameAndType : List Token → Text → Text → Prop
  | unnamed {w : List Token} {type : Text} (h : TypeName w type) : NameAndType w [] type
  | named {n : Token} {w : List Token} {type : Text} (name : n.kind.isName = true)
      (h : TypeName w type) (notWords : ∀ t ∈ w.head?, ∀ both, ¬TwoWords n.kind t.kind both) :
      NameAndType (n :: w) (unquote n.text) type

/-- The words for the mode of an argument. -/
inductive ModeWord : Kind → ArgumentMode → Prop
  | input : ModeWord (.keyword .in_) .input
  | output : ModeWord (.keyword .out) .output
  | inputOutput : ModeWord (.keyword .inout) .inputOutput
  | variadic : ModeWord (.keyword .variadic) .variadic

/-- The first token is a mode and the second a name. -/
inductive StartsWithMode : List Token → Prop
  | intro {a b : Token} {w : List Token} {mode : ArgumentMode} (mark : ModeWord a.kind mode)
      (name : b.kind.isName = true) : StartsWithMode (a :: b :: w)

/-- An argument, with a mode where `modes` allows one. -/
inductive FormalArgument (modes : Bool) : List Token → Argument → Prop
  | unmarked {w v : List Token} {name type default : Text} (h : NameAndType w name type)
      (value : DefaultClause v default) (notMode : modes = true → ¬StartsWithMode w) :
      FormalArgument modes (w ++ v) { name, type, default }
  | marked {m : Token} {w v : List Token} {mode : ArgumentMode} {name type default : Text}
      (allowed : modes = true) (mark : ModeWord m.kind mode)
      (h : NameAndType w name type) (value : DefaultClause v default) :
      FormalArgument modes (m :: (w ++ v)) { mode, name, type, default }

/-! ### Functions -/

/-- The arguments of a function between its parentheses. -/
inductive FunctionArguments : List Token → List Argument → Prop
  | none : FunctionArguments [] []
  | some {w : List Token} {args : List Argument}
      (h : Separated .comma (FormalArgument true) w args) : FunctionArguments w args

/-- `RETURNS [SETOF] type`, or nothing. -/
inductive ResultClause : List Token → Option ReturnClause → Prop
  | none : ResultClause [] none
  | single {r : Token} {w : List Token} {type : Text} (mark : r.kind = .keyword .returns)
      (h : TypeName w type) (notSet : ∀ t ∈ w.head?, t.kind ≠ .keyword .setof) :
      ResultClause (r :: w) (some { setOf := false, type })
  | set {r s : Token} {w : List Token} {type : Text} (mark : r.kind = .keyword .returns)
      (setMark : s.kind = .keyword .setof) (h : TypeName w type) :
      ResultClause (r :: s :: w) (some { setOf := true, type })

/-- The kinds of the tokens of a function option. -/
inductive OptionKinds : List Kind → Prop
  | language {k : Kind} (h : k.isName = true ∨ k = .string) : OptionKinds [.keyword .language, k]
  | word {k : Keyword} (h : k ∈ [.immutable, .stable, .volatile, .strict, .window, .leakproof]) :
      OptionKinds [.keyword k]
  | notLeakproof : OptionKinds [.keyword .not_, .keyword .leakproof]
  | called : OptionKinds [.keyword .called, .keyword .on, .keyword .null, .keyword .input]
  | returnsNull :
      OptionKinds
        [.keyword .returns, .keyword .null, .keyword .on, .keyword .null, .keyword .input]
  | security {k : Keyword} (h : k ∈ [.invoker, .definer]) :
      OptionKinds [.keyword .security, .keyword k]
  | externalSecurity {k : Keyword} (h : k ∈ [.invoker, .definer]) :
      OptionKinds [.keyword .external, .keyword .security, .keyword k]
  | number {k : Keyword} {n : Kind} (h : k ∈ [.cost, .rows]) (number : n ∈ [.integer, .float]) :
      OptionKinds [.keyword k, n]
  | body : OptionKinds [.keyword .as_, .string]
  | linkedBody : OptionKinds [.keyword .as_, .string, .comma, .string]

/-- A function option, which has no value. -/
def FunctionOption (w : List Token) (_ : Unit) : Prop := OptionKinds (w.map (·.kind))

/-- A function, from `FUNCTION` through its last option. -/
inductive FunctionPhrase : List Token → FunctionDeclaration → Prop
  | intro {f l r : Token} {w v x y : List Token} {name : Text} {arguments : List Argument}
      {returns : Option ReturnClause} {units : List Unit} (mark : f.kind = .keyword .function)
      (named : QualifiedName w name) (left : l.kind = .leftParen)
      (args : FunctionArguments v arguments) (right : r.kind = .rightParen)
      (result : ResultClause x returns) (options : Repeated FunctionOption y units) :
      FunctionPhrase (f :: (w ++ l :: (v ++ r :: (x ++ y)))) { name, arguments, returns }

/-! ### Aggregates -/

/-- A star alone, or arguments without modes; the first value says whether it is the star. -/
inductive AggregateArguments : List Token → Bool → List Argument → Prop
  | star {s : Token} (h : s.kind = .star) : AggregateArguments [s] true []
  | some {w : List Token} {args : List Argument}
      (h : Separated .comma (FormalArgument false) w args) : AggregateArguments w false args

/-- The words before the name of a function that an aggregate uses. -/
inductive FunctionWord : Kind → OptionKind → Prop
  | sfunc : FunctionWord (.keyword .sfunc) .sfunc
  | prefunc : FunctionWord (.keyword .prefunc) .prefunc
  | combinefunc : FunctionWord (.keyword .combinefunc) .prefunc
  | finalfunc : FunctionWord (.keyword .finalfunc) .finalfunc

/-- An option of an aggregate.  Its place is that of its keyword. -/
inductive AggregateSetting : List Token → AggregateOption → Prop
  | function {k e : Token} {w : List Token} {kind : OptionKind} {value : Text}
      (mark : FunctionWord k.kind kind) (equals : e.kind = .equals)
      (h : QualifiedName w value) :
      AggregateSetting (k :: e :: w) { location := k.location, kind, value }
  | stateType {k e : Token} {w : List Token} {value : Text} (mark : k.kind = .keyword .stype)
      (equals : e.kind = .equals) (h : TypeName w value) :
      AggregateSetting (k :: e :: w) { location := k.location, kind := .stype, value }
  | firstState {k e : Token} {w : List Token} {value : Text} (mark : k.kind = .keyword .initcond)
      (equals : e.kind = .equals) (h : Expression w value) :
      AggregateSetting (k :: e :: w) { location := k.location, kind := .initcond, value }

/-- `[ORDERED] AGGREGATE`. -/
inductive AggregateWords : List Token → Prop
  | plain {w : List Token} (h : Spells [.keyword .aggregate] w) : AggregateWords w
  | ordered {w : List Token} (h : Spells [.keyword .ordered, .keyword .aggregate] w) :
      AggregateWords w

/-- An aggregate, from its first word through the parenthesis after its options. -/
inductive AggregatePhrase : List Token → AggregateDeclaration → Prop
  | intro {l r l' r' : Token} {x w v y : List Token} {name : Text} {wildcard : Bool}
      {arguments : List Argument} {options : List AggregateOption} (words : AggregateWords x)
      (named : QualifiedName w name) (left : l.kind = .leftParen)
      (args : AggregateArguments v wildcard arguments) (right : r.kind = .rightParen)
      (left' : l'.kind = .leftParen) (settings : Separated .comma AggregateSetting y options)
      (right' : r'.kind = .rightParen) :
      AggregatePhrase (x ++ (w ++ l :: (v ++ r :: l' :: (y ++ [r']))))
        { name, wildcard, arguments, options }

/-! ### Statements -/

/-- `CREATE [OR REPLACE]`. -/
inductive CreateWords : List Token → Prop
  | plain {w : List Token} (h : Spells [.keyword .create] w) : CreateWords w
  | orReplace {w : List Token} (h : Spells [.keyword .create, .keyword .or_, .keyword .replace] w) :
      CreateWords w

/-- What stands between these words and the semicolon. -/
inductive Declared : List Token → StatementBody → Prop
  | function {w : List Token} {d : FunctionDeclaration} (h : FunctionPhrase w d) :
      Declared w (.function d)
  | aggregate {w : List Token} {d : AggregateDeclaration} (h : AggregatePhrase w d) :
      Declared w (.aggregate d)

/-- A declaration and its semicolon. -/
inductive Sentence : List Token → StatementBody → Prop
  | intro {w v : List Token} {s : Token} {body : StatementBody} (words : CreateWords w)
      (h : Declared v body) (stop : s.kind = .semicolon) : Sentence (w ++ (v ++ [s])) body

/-- A statement. -/
inductive StatementPhrase : List Token → StatementBody → Prop
  | empty {t : Token} (h : t.kind = .semicolon) : StatementPhrase [t] .empty
  | comment {t : Token} (h : t.kind = .comment) : StatementPhrase [t] (.comment t.text)
  | newline {t : Token} (h : t.kind = .newline) : StatementPhrase [t] .newline
  | declaration {w : List Token} {body : StatementBody} (h : Sentence w body) :
      StatementPhrase w body

end SqlStubs.Grammar
