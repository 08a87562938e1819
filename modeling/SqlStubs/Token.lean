import SqlStubs.Location
import SqlStubs.Token.Keyword

/-!
# Tokens

A token is a kind, the bytes of the source that it stands for and the place where they begin.  The
end of the source is a token of its own kind with no bytes.  What cannot be read is a token too,
with the reason in its kind: a byte that begins nothing, or a quotation or comment that never ends,
which then stands for all the rest of the source.
-/

namespace SqlStubs

/-- What can be left without its end. -/
inductive Unclosed where
  | string | comment | identifier
deriving Repr, DecidableEq

/-- The message for a piece of source that never ends. -/
def Unclosed.message : Unclosed → Text
  | .string => Text.utf8 "unterminated string literal"
  | .comment => Text.utf8 "unterminated comment"
  | .identifier => Text.utf8 "unterminated quoted identifier"

/-- Why something cannot be read. -/
inductive Fault where
  /-- A byte that begins nothing. -/
  | byte
  /-- A quotation or comment without its end. -/
  | unclosed (what : Unclosed)
deriving Repr, DecidableEq

/-- The kind of a token. -/
inductive Kind where
  | eof
  | illegal (fault : Fault)
  /-- A comment between statements. -/
  | comment
  /-- A line break between statements. -/
  | newline
  | identifier
  | integer
  | float
  | string
  | semicolon | comma | dot | leftParen | rightParen | leftBracket | rightBracket | equals | star
  | plus | minus | doubleColon
  /-- The opener `/*+` of a default that is hidden in a comment. -/
  | escapeOpen
  /-- The closer `*/` of such a default. -/
  | escapeClose
  | keyword (k : Keyword)
deriving Repr, DecidableEq

namespace Kind

/-- Whether a kind is a keyword. -/
def isKeyword : Kind → Bool
  | keyword _ => true
  | _ => false

/-- Whether a kind is a reserved keyword. -/
def isReserved : Kind → Bool
  | keyword k => k.isReserved
  | _ => false

/-- Whether a token of this kind can be a name: an identifier or a keyword that is not reserved. -/
def isName : Kind → Bool
  | identifier => true
  | keyword k => !k.isReserved
  | _ => false

/-- The kind as messages show it. -/
def name : Kind → Text
  | eof => Text.utf8 "EOF"
  | illegal _ => Text.utf8 "ILLEGAL"
  | comment => Text.utf8 "COMMENT"
  | newline => Text.utf8 "NEWLINE"
  | identifier => Text.utf8 "IDENT"
  | integer => Text.utf8 "INTEGER"
  | float => Text.utf8 "FLOAT"
  | string => Text.utf8 "STRING"
  | semicolon => Text.utf8 ";"
  | comma => Text.utf8 ","
  | dot => Text.utf8 "."
  | leftParen => Text.utf8 "("
  | rightParen => Text.utf8 ")"
  | leftBracket => Text.utf8 "["
  | rightBracket => Text.utf8 "]"
  | equals => Text.utf8 "="
  | star => Text.utf8 "*"
  | plus => Text.utf8 "+"
  | minus => Text.utf8 "-"
  | doubleColon => Text.utf8 "::"
  | escapeOpen => Text.utf8 "/*+"
  | escapeClose => Text.utf8 "*/"
  | keyword k => k.name

/-- The kinds by number.  A gap stands before the keywords, between the reserved ones and the
others, and after them. -/
def numbered : List (Option Kind) :=
  ([eof, illegal .byte, comment, newline, identifier, integer, float, string, semicolon, comma, dot,
    leftParen, rightParen, leftBracket, rightBracket, equals, star, plus, minus, doubleColon,
    escapeOpen, escapeClose].map some)
  ++ [none] ++ Keyword.reservedWords.map (some ∘ keyword)
  ++ [none] ++ Keyword.otherWords.map (some ∘ keyword) ++ [none]

/-- The kind with a number, if there is one. -/
def ofNumber? (n : Int) : Option Kind :=
  match n with
  | .ofNat n => (numbered[n]?).join
  | .negSucc _ => none

/-- The number of a kind. -/
def number : Kind → Nat
  | illegal _ => 1
  | k => numbered.idxOf (some k)

/-- The name of the kind with a number; a number without a kind is shown itself. -/
def nameOfNumber (n : Int) : Text :=
  match ofNumber? n with
  | some k => k.name
  | none => Text.utf8 "TOKEN(" ++ Text.decimalInt n ++ Text.utf8 ")"

/-- The kind of a word that is already in lower case. -/
def ofWord (word : Text) : Kind :=
  match Keyword.ofWord? word with
  | some k => keyword k
  | none => identifier

end Kind

/-- A token of a source. -/
structure Token where
  kind : Kind
  /-- The bytes of the source that the token stands for. -/
  text : Text
  location : Location
deriving Repr, DecidableEq

/-- The text that a listing of tokens shows: the token's own, or what is wrong with it if it never
ends. -/
def Token.literal (t : Token) : Text :=
  match t.kind with
  | .illegal (.unclosed what) => what.message
  | _ => t.text

/-- The two styles of comments. -/
inductive CommentStyle where
  | line | block
deriving Repr, DecidableEq

/-- The style of a comment: a block begins with `/*`. -/
def CommentStyle.ofText (s : Text) : CommentStyle :=
  if (Text.utf8 "/*").isPrefixOf s then .block else .line

/-- The name of a style of comments. -/
def CommentStyle.name : CommentStyle → Text
  | .line => Text.utf8 "line"
  | .block => Text.utf8 "block"

end SqlStubs
