import SqlStubs.Files
import SqlStubs.Settings.File
import SqlStubs.Settings.Layer

/-!
# Loading settings

Settings are made from what the command line and the environment choose, and from a settings file:
one that is named, or else the first that is found in the working directory or above it.
-/

namespace SqlStubs.Settings

/-- The first part of the names of the variables that choose settings. -/
def variableMark : Text := Text.utf8 "SQLDOX_"

/-- The names that a settings file may have. -/
def fileNames : List Text := [Text.utf8 "sqldox.yaml", Text.utf8 "sqldox.yml"]

/-- How many directories are searched. -/
def searchLimit : Nat := 10

/-- The settings file in a directory. -/
def fileIn? (files : Files) (directory : Text) : Option Text :=
  (fileNames.map (Path.join directory)).find? files.pathExists

/-- The first settings file in a directory or above it, of so many directories. -/
def search (files : Files) : (levels : Nat) → (directory : Text) → Text
  | 0, _ => []
  | levels + 1, directory =>
    match fileIn? files directory with
    | some path => path
    | none =>
      let parent := Path.directory directory
      if parent = directory then [] else search files levels parent

/-- The settings file to be used; empty if there is none. -/
def findFile (files : Files) (named : Text) : Text :=
  if named.isEmpty then search files searchLimit files.herePath else named

/-- What the settings file at a path says, or why it cannot be used. -/
def readFile (files : Files) (path : Text) : Except Text Layer :=
  let path := Path.clean path
  match files.locate path with
  | .error fault => .error (fault.describe "open" path)
  | .ok (place, _) =>
    match files.contentAt place with
    | .error fault => .error (fault.describe "read" path)
    | .ok content =>
      match SettingsFile.read content with
      | .error fault => .error fault.message
      | .ok entries => .ok (.ofList entries)

/-- What the environment chooses. -/
def environmentLayer (environment : List (Text × Text)) : Layer :=
  .ofEnvironment <| environment.filterMap fun (name, value) =>
    if variableMark.isPrefixOf name then some (name.drop variableMark.length, value) else none

/-- The settings that hold: the command line goes before the environment, and this before the
file. -/
def load (files : Files) (environment : List (Text × Text)) (named : Text) (flags : Layer) :
    Except SettingsFault Settings :=
  let path := findFile files named
  let file := if path.isEmpty then .ok {} else readFile files path
  match file with
  | .error reason => .error (.file path reason)
  | .ok file => ofLayers [flags, environmentLayer environment, file, Layer.initial] path

end SqlStubs.Settings
