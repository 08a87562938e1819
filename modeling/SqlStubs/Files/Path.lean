import SqlStubs.Text

/-!
# Paths

A path is a text of names with slashes between them; it is absolute if it begins with one.  The
functions here work on the text alone and look at no file.
-/

namespace SqlStubs.Path

/-- The name of the directory itself. -/
def dot : Text := [0x2E]

/-- The name of the directory above. -/
def dotDot : Text := [0x2E, 0x2E]

/-- Whether a path begins at the root. -/
def isAbsolute (path : Text) : Bool := path.head? = some 0x2F

/-- The names of a path, without empty ones. -/
def names (path : Text) : List Text := (Text.splitOn 0x2F path).filter fun name => !name.isEmpty

/-- The path with one more name, where `..` takes back the name before it if there is one. -/
def push (absolute : Bool) (path : List Text) (name : Text) : List Text :=
  if name = dot then path
  else if name = dotDot then
    match path.getLast? with
    | none => if absolute then [] else [dotDot]
    | some last => if last = dotDot then path ++ [dotDot] else path.dropLast
  else path ++ [name]

/-- The shortest path of the same meaning, as far as the text alone can tell. -/
def clean (path : Text) : Text :=
  let kept := (names path).foldl (push (isAbsolute path)) []
  let joined := Text.join [0x2F] kept
  if isAbsolute path then 0x2F :: joined else if joined.isEmpty then dot else joined

/-- The path of `name` in `directory`. -/
def join (directory name : Text) : Text :=
  if directory.isEmpty then (if name.isEmpty then [] else clean name)
  else clean (directory ++ [0x2F] ++ name)

/-- The last name of a path. -/
def base (path : Text) : Text :=
  if path.isEmpty then dot else (names path).getLastD [0x2F]

/-- The path of the directory that a path is in. -/
def directory (path : Text) : Text := clean (path.reverse.dropWhile (· ≠ 0x2F)).reverse

/-- The path as seen from the root, given the working directory. -/
def absolute (here path : Text) : Text := if isAbsolute path then clean path else join here path

/-- A path without slashes at its end. -/
def withoutTrailing (path : Text) : Text := Text.trimEnd (· = 0x2F) path

/-- The path up to its last name, with the slash before that. -/
def upToLast (path : Text) : Text := Text.trimEnd (· ≠ 0x2F) (withoutTrailing path)

end SqlStubs.Path
