import SqlStubs.Command.Batch
import SqlStubs.Flags
import SqlStubs.Settings.Load

/-!
# The command line

Three commands: translating one input, which is the command without a name, `batch` for several
files, and `version`.  `Command.run` finds the command, reads its flags, loads the settings and runs
it; the first step that fails decides the outcome.

The commands that only show generated text are left out, which are `help` and those that complete
command lines in a shell, and with them the flag for help.  `Command.find` takes their names for
arguments of the command without a name.
-/

namespace SqlStubs.Command

/-- The commands. -/
inductive Name where
  | root | batch | version
deriving Repr, DecidableEq

/-- The command with a name, other than the one without. -/
def Name.ofText? (s : Text) : Option Name :=
  if s = Text.utf8 "batch" then some .batch
  else if s = Text.utf8 "version" then some .version
  else none

/-- The version of this program. -/
def versionText : String := "0.1.0"

/-! ### Flags -/

/-- The flags that every command has. -/
def commonFlags : List Flag :=
  [{ name := "config", type := .text },
    { name := "verbose", letter := some 0x76, type := .boolean },
    { name := "lenient", type := .boolean },
    { name := "void-type", type := .text },
    { name := "set-template", type := .text },
    { name := "aggregate-marker", type := .text }]

/-- The flag that names the input in diagnostics. -/
def filenameFlag : Flag := { name := "filename", letter := some 0x66, type := .text }

/-- The flag that asks for the version. -/
def versionFlag : Flag := { name := "version", type := .boolean }

/-- The flags of a batch. -/
def batchFlags : List Flag :=
  [{ name := "output", letter := some 0x6F, type := .text }, { name := "jobs", type := .integer }]

/-- The flags of a command. -/
def flagsOf : Name → List Flag
  | .root => filenameFlag :: versionFlag :: commonFlags
  | .batch => batchFlags ++ commonFlags
  | .version => commonFlags

/-! ### Finding the command -/

/-- The flags that are known when the command is looked for. -/
def searchFlags : List Flag := filenameFlag :: commonFlags

/-- Whether the argument after this one is its value: it is a flag by itself, of one letter or of
two dashes, and not known to be true or false. -/
def takesNext (s : Text) : Bool :=
  if s.contains 0x3D then false
  else match s with
    | 0x2D :: 0x2D :: name => (Flag.named? searchFlags name).all (·.type ≠ .boolean)
    | [0x2D, letter] => (Flag.lettered? searchFlags letter).all (·.type ≠ .boolean)
    | _ => false

/-- The first argument that is neither a flag nor the value of one.  There is none after `--`, and
none after a flag whose value is the last argument. -/
def firstWord? : List Text → Option Text
  | [] => none
  | s :: rest =>
    if s = Text.utf8 "--" then none
    else if takesNext s then
      match rest with
      | _ :: next :: rest => firstWord? (next :: rest)
      | _ => none
    else if s.isEmpty || s.head? = some 0x2D then firstWord? rest
    else some s

/-- The arguments without the first that is `word` and neither a flag nor the value of one. -/
def without (word : Text) : List Text → List Text
  | [] => []
  | s :: rest =>
    if s = Text.utf8 "--" then s :: rest
    else if takesNext s then
      match rest with
      | value :: rest => s :: value :: without word rest
      | [] => [s]
    else if s = word then rest
    else s :: without word rest

/-- The command that arguments ask for, and the arguments that are left for it. -/
def find (arguments : List Text) : Name × List Text :=
  match firstWord? arguments with
  | none => (.root, arguments)
  | some word =>
    match Name.ofText? word with
    | some name => (name, without word arguments)
    | none => (.root, arguments)

/-! ### Running -/

/-- What is wrong with the number of arguments of a command. -/
def countFault? (name : Name) (others : List Text) : Option Text :=
  match name with
  | .root =>
    if 1 < others.length then
      some (Text.utf8 "accepts at most 1 arg(s), received " ++ Text.decimal others.length)
    else none
  | .batch =>
    if others.isEmpty then some (Text.utf8 "requires at least 1 arg(s), only received 0") else none
  | .version => none

/-- What is wrong with a command whose settings are loaded: a flag that has to be given. -/
def requiredFault? (name : Name) (p : ParsedArguments) : Option Text :=
  if name = .batch && (p.flags.get? (Text.utf8 "output")).isNone then
    some (Text.utf8 "required flag(s) \"output\" not set")
  else none

/-- Shows the version.  What standard output does not take is lost. -/
def showVersion (w : World) : World :=
  let (w, _) := w.print (Text.utf8 "sqldox v" ++ Text.utf8 versionText ++ [0x0A])
  (w.print (Text.utf8 "commit unknown, built unknown\n")).1

/-- Runs a command whose arguments are read and whose settings are loaded. -/
def execute (name : Name) (s : Settings) (w : World) (p : ParsedArguments) :
    World × Option Failure :=
  match name with
  | .root => translate s w p.others.head?
  | .batch => batch s w (p.text "output") p.others
  | .version => (showVersion w, none)

/-- Loads the settings and runs a command. -/
def withSettings (name : Name) (w : World) (p : ParsedArguments) : World × Option Failure :=
  match Settings.load w.files w.environment (p.text "config") p.layer with
  | .error fault => (w, some (.usage fault.message))
  | .ok s =>
    -- settings come before the check for the flag, so their faults win
    let w := if s.file.isEmpty then w
      else w.log (leastLevel s) [⟨.debug, "using config file", [("path", .text s.file)]⟩]
    match requiredFault? name p with
    | some message => (w, some ⟨message, none⟩)
    | none => execute name s w p

/-- Runs a command on its arguments. -/
def runCommand (name : Name) (w : World) (arguments : List Text) : World × Option Failure :=
  match ParsedArguments.ofList (flagsOf name) arguments with
  | .error fault => (w, some (.usage fault.message))
  | .ok p =>
    if p.flags.get? (Text.utf8 "version") = some (.boolean true) then
      let (w, whole) := w.print (Text.utf8 "sqldox " ++ Text.utf8 versionText ++ [0x0A])
      (w, if whole then none else some ⟨sinkFull, none⟩)
    else match countFault? name p.others with
      | some message => (w, some (.usage message))
      | none => withSettings name w p

/-- Runs what the arguments ask for.  Gives the world after it and the exit status; a failure is the
last message. -/
def run (w : World) (arguments : List Text) : World × Int :=
  let (name, arguments) := find arguments
  let (w, failure) := runCommand name w arguments
  match failure with
  | none => (w, 0)
  | some f => ({ w with messages := w.messages ++ f.message ++ [0x0A] }, exitStatus (some f))

end SqlStubs.Command
