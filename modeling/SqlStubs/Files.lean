import SqlStubs.Files.Path
import SqlStubs.Table

/-!
# Files

A tree of directories, files and symbolic links, with a working directory.  A node is known by its
place, the names from the root to it; `Files.resolve` finds the place that a path leads to, through
links if need be.

Every node has exactly one place.  Hard links, by which a file has several, are left out, and so are
owners, permissions and times.
-/

namespace SqlStubs

/-- Something in a tree of files. -/
inductive Node where
  | file (content : Text)
  | directory
  | link (target : Text)
deriving Repr, DecidableEq

/-- The place of a node: the names from the root to it. -/
abbrev Place := List Text

/-- Why an operation on files fails. -/
inductive FileFault where
  | noEntry | notDirectory | isDirectory | alreadyExists | tooManyLinks | nameTooLong | invalid
deriving Repr, DecidableEq

/-- The wording of a fault. -/
def FileFault.message : FileFault → Text
  | noEntry => Text.utf8 "no such file or directory"
  | notDirectory => Text.utf8 "not a directory"
  | isDirectory => Text.utf8 "is a directory"
  | alreadyExists => Text.utf8 "file exists"
  | tooManyLinks => Text.utf8 "too many levels of symbolic links"
  | nameTooLong => Text.utf8 "file name too long"
  | invalid => Text.utf8 "invalid argument"

/-- The wording of a fault together with the operation and the path that it is about. -/
def FileFault.describe (fault : FileFault) (operation : String) (path : Text) : Text :=
  Text.utf8 operation ++ Text.utf8 " " ++ path ++ Text.utf8 ": " ++ fault.message

/-- A tree of files. -/
structure Files where
  /-- The nodes other than the root, by their place. -/
  nodes : Table Place Node := {}
  /-- The working directory. -/
  here : Place := []
deriving Repr, DecidableEq

namespace Files

/-- The absolute path of a place other than the root. -/
def pathOf (place : Place) : Text := place.flatMap fun name => 0x2F :: name

/-- The path of the working directory. -/
def herePath (fs : Files) : Text := if fs.here.isEmpty then [0x2F] else pathOf fs.here

/-- The node at a place. -/
def node? (fs : Files) (place : Place) : Option Node :=
  if place.isEmpty then some .directory else fs.nodes.get? place

/-- The tree with a node at a place. -/
def put (fs : Files) (place : Place) (node : Node) : Files :=
  { fs with nodes := fs.nodes.insert place node }

/-- Putting a node at a place changes no other place. -/
theorem node?_put (fs : Files) {place : Place} (h : place ≠ []) (node : Node) (other : Place) :
    (fs.put place node).node? other = if other = place then some node else fs.node? other := by
  unfold node? put
  by_cases ho : other = []
  · simp [ho, h.symm]
  · simp [ho, Table.get?_insert]

/-- What a path leads to. -/
inductive Target where
  /-- A node and its place. -/
  | found (place : Place) (node : Node)
  /-- Nothing, in a directory that exists. -/
  | missing (directory : Place) (name : Text)
deriving Repr, DecidableEq

/-- How many links may be followed on one path. -/
def linkLimit : Nat := 40

/-- How long a name may be. -/
def nameLimit : Nat := 255

/-- The names of a path.  A slash at the end asks for a directory, as a dot would. -/
def steps (path : Text) : List Text :=
  Path.names path ++ (if path.getLast? = some 0x2F then [Path.dot] else [])

/-- Goes from a directory along names.  A link is left to `onLink`, which is told where its target
counts from and the names that lead on from there; a link at the very end only if `follow` says
so. -/
def walkToLink (fs : Files) (follow : Bool)
    (onLink : Place → List Text → Except FileFault Target) :
    (directory : Place) → (names : List Text) → Except FileFault Target
  | directory, [] => .ok (.found directory .directory)
  | directory, name :: rest =>
    if name = Path.dot then walkToLink fs follow onLink directory rest
    else if name = Path.dotDot then walkToLink fs follow onLink directory.dropLast rest
    else if nameLimit < name.length then .error .nameTooLong
    else match fs.node? (directory ++ [name]) with
      | none => if rest.isEmpty then .ok (.missing directory name) else .error .noEntry
      | some .directory => walkToLink fs follow onLink (directory ++ [name]) rest
      | some (.file content) =>
        if rest.isEmpty then .ok (.found (directory ++ [name]) (.file content))
        else .error .notDirectory
      | some (.link target) =>
        if rest.isEmpty && !follow then .ok (.found (directory ++ [name]) (.link target))
        else onLink (if Path.isAbsolute target then [] else directory) (steps target ++ rest)

/-- Goes from a directory along names and through at most so many links. -/
def walk (fs : Files) (follow : Bool) :
    (links : Nat) → (directory : Place) → (names : List Text) → Except FileFault Target
  | 0 => fs.walkToLink follow fun _ _ => .error .tooManyLinks
  | links + 1 => fs.walkToLink follow (fs.walk follow links)

/-- What a path leads to. -/
def resolve (fs : Files) (follow : Bool) (path : Text) : Except FileFault Target :=
  if path.isEmpty then .error .noEntry
  else if path.contains 0 then .error .invalid
  else walk fs follow linkLimit (if Path.isAbsolute path then [] else fs.here) (steps path)

/-- The place and the node that a path leads to. -/
def locate (fs : Files) (path : Text) : Except FileFault (Place × Node) :=
  match fs.resolve true path with
  | .error fault => .error fault
  | .ok (.missing _ _) => .error .noEntry
  | .ok (.found place node) => .ok (place, node)

/-- Whether a path leads to something. -/
def pathExists (fs : Files) (path : Text) : Bool := (fs.locate path).isOk

/-- Whether a path, not followed at its end, is a directory. -/
def isRealDirectory (fs : Files) (path : Text) : Bool :=
  match fs.resolve false path with
  | .ok (.found _ .directory) => true
  | _ => false

/-- The content of the file at a place. -/
def contentAt (fs : Files) (place : Place) : Except FileFault Text :=
  match fs.node? place with
  | some (.file content) => .ok content
  | some .directory => .error .isDirectory
  | _ => .error .noEntry

/-- Makes an empty file at a path, in place of a file that is there, and gives its place. -/
def create (fs : Files) (path : Text) : Except FileFault (Files × Place) :=
  match fs.resolve true path with
  | .error fault => .error fault
  | .ok (.missing directory name) =>
    .ok (fs.put (directory ++ [name]) (.file []), directory ++ [name])
  | .ok (.found place (.file _)) => .ok (fs.put place (.file []), place)
  | .ok (.found _ _) => .error .isDirectory

/-- Makes a directory whose parent exists. -/
def makeDirectory (fs : Files) (path : Text) : Except FileFault Files :=
  let path := if (Path.withoutTrailing path).isEmpty then path else Path.withoutTrailing path
  match fs.resolve false path with
  | .error fault => .error fault
  | .ok (.found _ _) => .error .alreadyExists
  | .ok (.missing directory name) => .ok (fs.put (directory ++ [name]) .directory)

/-- Makes a directory and those above it that are missing.  A fault comes with the path at which it
arose. -/
def makeDirectories (fs : Files) (path : Text) : Except (Text × FileFault) Files :=
  match fs.locate path with
  | .ok (_, .directory) => .ok fs
  | .ok _ => .error (path, .notDirectory)
  | .error _ =>
    -- the parent keeps its slash, which a fault shows
    let parent := Path.upToLast path
    let above := if !parent.isEmpty && parent.length < path.length then makeDirectories fs parent
      else .ok fs
    match above with
    | .error fault => .error fault
    | .ok fs =>
      match fs.makeDirectory path with
      | .ok fs => .ok fs
      -- the directory may have come into being together with its parent, as in `a/.`
      | .error fault => if fs.isRealDirectory path then .ok fs else .error (path, fault)
termination_by path.length
decreasing_by
  rename_i h
  simp only [Bool.and_eq_true, decide_eq_true_eq] at h
  exact h.2

/-- Whether two paths lead to the same file, or would if it were there. -/
def samePath (fs : Files) (a b : Text) : Bool :=
  Path.absolute fs.herePath a = Path.absolute fs.herePath b ||
    match fs.locate a, fs.locate b with
    | .ok (p, _), .ok (q, _) => p = q
    | _, _ => false

/-! ### Making and comparing trees -/

/-- The tree with a directory at a place, and those above it. -/
def addDirectory (fs : Files) (place : Place) : Files :=
  (List.range place.length).foldl
    (fun fs n =>
      let above := place.take (n + 1)
      if (fs.node? above).isSome then fs else fs.put above .directory) fs

/-- The tree with a node at a place, and the directories above it. -/
def add (fs : Files) (place : Place) (node : Node) : Files :=
  (fs.addDirectory place.dropLast).put place node

/-- The files that are not the same in an earlier tree, by path. -/
def changesSince (fs earlier : Files) : List (Text × Text) :=
  fs.nodes.entries.filterMap fun (place, node) =>
    match node with
    | .file content =>
      if earlier.node? place = some (.file content) then none else some (pathOf place, content)
    | _ => none

end Files

end SqlStubs
