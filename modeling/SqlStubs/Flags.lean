import SqlStubs.Settings.Layer
import SqlStubs.Text.Quoted

/-!
# Flags

Command line arguments are flags and others.  A flag is written `--name=value`, `--name value`,
`-fvalue`, `-f=value` or `-f value`; one that is true or false may be written without a value, and
several such letters may share one dash.  Everything after `--` is an argument.

No command has a flag that shows help: `--help` and `-h` are faults here (`FlagFault.help`).
-/

namespace SqlStubs

/-- What a flag takes. -/
inductive FlagType where
  | text | boolean | integer
deriving Repr, DecidableEq

/-- A flag. -/
structure Flag where
  name : String
  /-- The letter that stands for it after a single dash, if it has one. -/
  letter : Option UInt8 := none
  type : FlagType
deriving Repr, DecidableEq

/-- What is wrong with arguments. -/
inductive FlagFault where
  | badSyntax (argument : Text)
  | unknown (name : Text)
  | unknownLetter (letter : UInt8) (group : Text)
  | missingValue (name : Text)
  | missingLetterValue (letter : UInt8) (group : Text)
  | invalidValue (flag : Flag) (value : Text) (fault : LiteralFault)
  /-- Help was asked for where there is none. -/
  | help
deriving Repr, DecidableEq

/-- A flag as messages show it. -/
def Flag.title (f : Flag) : Text :=
  (match f.letter with
    | some letter => Text.utf8 "-" ++ [letter] ++ Text.utf8 ", "
    | none => []) ++ Text.utf8 "--" ++ Text.utf8 f.name

/-- A letter as messages show it.  A byte outside ASCII is shown by the first byte of its
encoding. -/
def letterText (letter : UInt8) : Text :=
  Text.quotedCharacter ((Text.Utf8.encode letter.toNat).headD 0).toNat

/-- The wording of a fault. -/
def FlagFault.message : FlagFault → Text
  | badSyntax argument => Text.utf8 "bad flag syntax: " ++ argument
  | unknown name => Text.utf8 "unknown flag: --" ++ name
  | unknownLetter letter group =>
    Text.utf8 "unknown shorthand flag: " ++ letterText letter ++ Text.utf8 " in -" ++ group
  | missingValue name => Text.utf8 "flag needs an argument: --" ++ name
  | missingLetterValue letter group =>
    Text.utf8 "flag needs an argument: " ++ letterText letter ++ Text.utf8 " in -" ++ group
  | invalidValue flag value fault =>
    let reader := match flag.type with
      | .integer => "strconv.ParseInt"
      | _ => "strconv.ParseBool"
    Text.utf8 "invalid argument " ++ Text.quoted value ++ Text.utf8 " for "
      ++ Text.quoted flag.title ++ Text.utf8 " flag: " ++ Text.utf8 reader
      ++ Text.utf8 ": parsing " ++ Text.quoted value ++ Text.utf8 ": " ++ fault.message
  | help => Text.utf8 "pflag: help requested"

namespace Flag

/-- The value of a flag from its text. -/
def value (f : Flag) (s : Text) : Except FlagFault Value :=
  match f.type with
  | .text => .ok (.text s)
  | .boolean => ((Literal.boolean s).map Value.boolean).mapError (.invalidValue f s)
  | .integer => ((Literal.integer s).map Value.integer).mapError (.invalidValue f s)

/-- The flag with a name. -/
def named? (flags : List Flag) (name : Text) : Option Flag :=
  flags.find? fun f => Text.utf8 f.name = name

/-- The flag with a letter. -/
def lettered? (flags : List Flag) (letter : UInt8) : Option Flag :=
  flags.find? fun f => f.letter = some letter

/-- The text of a flag that is written without a value and needs none. -/
def trueText : Text := Text.utf8 "true"

end Flag

namespace Flags

/-- What one argument says: flags with their texts, and a flag whose text is the next argument, with
the fault if there is none. -/
structure Reading where
  set : List (Flag × Text) := []
  wants : Option (Flag × FlagFault) := none
deriving Repr, DecidableEq

/-- What the letters after a single dash say.  A group that begins with `test.` is ignored. -/
def readGroup (flags : List Flag) : Text → Except FlagFault Reading
  | [] => .ok {}
  | letter :: rest =>
    if (Text.utf8 "test.").isPrefixOf (letter :: rest) then .ok {}
    else match Flag.lettered? flags letter with
      | none =>
        if letter = 0x68 then .error .help else .error (.unknownLetter letter (letter :: rest))
      | some f =>
        if 2 ≤ rest.length && rest.head? = some 0x3D then .ok { set := [(f, rest.drop 1)] }
        else if f.type = .boolean then
          (readGroup flags rest).map fun r => { r with set := (f, Flag.trueText) :: r.set }
        else if !rest.isEmpty then .ok { set := [(f, rest)] }
        else .ok { wants := some (f, .missingLetterValue letter (letter :: rest)) }

/-- What an argument with two dashes says, given the text after them. -/
def readLong (flags : List Flag) (s : Text) : Except FlagFault Reading :=
  if s.head? = some 0x2D || s.head? = some 0x3D then
    .error (.badSyntax (Text.utf8 "--" ++ s))
  else
    let name := s.takeWhile (· ≠ 0x3D)
    match Flag.named? flags name, s.dropWhile (· ≠ 0x3D) with
    | none, _ => if name = Text.utf8 "help" then .error .help else .error (.unknown name)
    | some f, _ :: text => .ok { set := [(f, text)] }
    | some f, [] =>
      if f.type = .boolean then .ok { set := [(f, Flag.trueText)] }
      else .ok { wants := some (f, .missingValue name) }

end Flags

/-- Arguments in parts. -/
structure ParsedArguments where
  /-- The flags that were given, by name. -/
  flags : Table Text Value := {}
  /-- The arguments that are no flags. -/
  others : List Text := []
deriving Repr, DecidableEq

namespace ParsedArguments

/-- The arguments with values for flags; the last value of a flag counts. -/
def setAll (p : ParsedArguments) : List (Flag × Text) → Except FlagFault ParsedArguments
  | [] => .ok p
  | (f, s) :: rest =>
    match f.value s with
    | .ok v => setAll { p with flags := p.flags.insert (Text.utf8 f.name) v } rest
    | .error fault => .error fault

/-- Goes on with further arguments. -/
def parse (flags : List Flag) (p : ParsedArguments) : List Text → Except FlagFault ParsedArguments
  | [] => .ok p
  | [0x2D, 0x2D] :: rest => .ok { p with others := p.others ++ rest }
  | (0x2D :: b :: s) :: rest =>
    let reading := if b = 0x2D then Flags.readLong flags s else Flags.readGroup flags (b :: s)
    match reading with
    | .error fault => .error fault
    | .ok r =>
      match setAll p r.set with
      | .error fault => .error fault
      | .ok p =>
        match r.wants, rest with
        | none, rest => parse flags p rest
        | some (_, fault), [] => .error fault
        | some (f, _), s :: rest =>
          match setAll p [(f, s)] with
          | .error fault => .error fault
          | .ok p => parse flags p rest
  | s :: rest => parse flags { p with others := p.others ++ [s] } rest

/-- The parts of arguments. -/
def ofList (flags : List Flag) (arguments : List Text) : Except FlagFault ParsedArguments :=
  parse flags {} arguments

/-- The text of a flag; empty if it was not given. -/
def text (p : ParsedArguments) (name : String) : Text :=
  match p.flags.get? (Text.utf8 name) with
  | some (.text s) => s
  | _ => []

/-- What the flags choose: a key has underscores where a flag has dashes. -/
def layer (p : ParsedArguments) : Layer :=
  .ofList (p.flags.entries.map fun (name, v) =>
    (name.map fun b => if b = 0x2D then 0x5F else b, v))

end ParsedArguments

end SqlStubs
