import SqlStubs.Command

/-!
# The program

The outer layer: it looks at the files that the arguments name, runs the command on what it saw, and
carries out what the command changed.  All decisions are made in `Command.run`.
-/

namespace SqlStubs.Main

/-! ### What to look at -/

/-- The arguments of the command, if they can be read. -/
def parsed? (arguments : List Text) : Option (Command.Name × ParsedArguments) :=
  let (name, rest) := Command.find arguments
  match ParsedArguments.ofList (Command.flagsOf name) rest with
  | .ok p => some (name, p)
  | .error _ => none

/-- Whether the command reads standard input. -/
def readsInput (arguments : List Text) : Bool :=
  match parsed? arguments with
  | some (.root, p) => p.others.isEmpty && (p.flags.get? (Text.utf8 "version")).isNone
  | _ => false

/-- A directory and those above it. -/
def ancestors (directory : Text) : (levels : Nat) → List Text
  | 0 => []
  | levels + 1 => directory :: ancestors (Path.directory directory) levels

/-- The paths that the command may look at. -/
def pathsOfInterest (here : Text) (arguments : List Text) : List Text :=
  match parsed? arguments with
  | none => []
  | some (name, p) =>
    let config := p.text "config"
    let output := p.text "output"
    (if config.isEmpty then
        (ancestors here Settings.searchLimit).flatMap fun d => Settings.fileNames.map (Path.join d)
      else [config])
      ++ p.others
      ++ (if name = .batch then
          ancestors (Path.absolute here output) (Path.names output).length
            ++ p.others.map (Command.destination output)
        else [])

/-! ### Looking and acting -/

/-- A text as a string, where it is one. -/
def string? (s : Text) : Option String := String.fromUTF8? ⟨s.toArray⟩

/-- The tree with what is found at a path.  A path through symbolic links becomes a link to where it
leads. -/
def observe (files : Files) (path : Text) : IO Files := do
  let some name := string? path | return files
  try
    let real ← IO.FS.realPath name
    let node ← if ← real.isDir then pure Node.directory
      else pure (Node.file (← IO.FS.readBinFile real).data.toList)
    let realPath := Text.utf8 (toString real)
    let place := Path.names (Path.absolute files.herePath path)
    let files := files.add (Path.names realPath) node
    return if place = Path.names realPath then files else files.add place (.link realPath)
  catch _ => return files

/-- The variables of the environment that choose settings. -/
def settingVariables : IO (List (Text × Text)) := do
  let keys : List SettingKey :=
    [.filename, .lenient, .verbose, .voidType, .setTemplate, .aggregateMarker, .jobs]
  keys.filterMapM fun key => do
    let name := "SQLDOX_" ++ key.name.toUpper
    return (← IO.getEnv name).map fun value => (Text.utf8 name, Text.utf8 value)

/-- Makes the directories and writes the files that are not in the earlier tree. -/
def carryOut (earlier files : Files) : IO Unit := do
  for (place, node) in files.nodes.entries do
    if node = .directory && (earlier.node? place).isNone then
      if let some name := string? (Files.pathOf place) then IO.FS.createDirAll name
  for (path, content) in files.changesSince earlier do
    if let some name := string? path then IO.FS.writeBinFile name ⟨content.toArray⟩

/-- Runs the command and gives its exit status. -/
def run (arguments : List String) : IO UInt32 := do
  let arguments := arguments.map Text.utf8
  let here := Text.utf8 (toString (← IO.currentDir))
  let start : Files := ({ here := Path.names here } : Files).addDirectory (Path.names here)
  let files ← (pathsOfInterest here arguments).foldlM observe start
  let input ← if readsInput arguments then
    pure (← (← IO.getStdin).readBinToEnd).data.toList else pure []
  let (after, status) := Command.run { files, environment := ← settingVariables, input } arguments
  carryOut files after.files
  let stdout ← IO.getStdout
  stdout.write ⟨after.output.taken⟩
  stdout.flush
  let stderr ← IO.getStderr
  stderr.write ⟨after.messages.toArray⟩
  stderr.flush
  return status.toNat.toUInt32

end SqlStubs.Main

/-- The program. -/
def main (arguments : List String) : IO UInt32 := SqlStubs.Main.run arguments
