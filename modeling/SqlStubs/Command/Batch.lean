import SqlStubs.Command.Translate

/-!
# Translating several files

Each file is translated into a file of the same base name in another directory.  Inputs that would
collide, and an input that its own output would overwrite, are refused before any file is written.
After a failure the outputs of the other files are still made, but stay empty.

The files are taken one after the other, in the order in which they are given (`BatchState.step`).
Working on several at once is left out: `Settings.jobs`, which bounds how many, is loaded and
checked like the other settings, and nothing here reads it.  What is lost by this is which failure
comes first, which of the other files it still cancels, and the order of the records.  Whether a
batch succeeds and what it leaves then is not lost: without symbolic links neither depends on the
order of the files (`batch_perm` in the proofs).  Refusals come before the first file.
-/

namespace SqlStubs.Command

/-- The file that an input is translated into. -/
def destination (directory path : Text) : Text := Path.join directory (Path.base path)

/-- Why a set of inputs is refused, if it is; `seen` are earlier inputs by base name. -/
def refusal? (files : Files) (directory : Text) (seen : Table Text Text) :
    List Text → Option Failure
  | [] => none
  | path :: rest =>
    match seen.get? (Path.base path) with
    | some earlier =>
      some (.usage (earlier ++ Text.utf8 " and " ++ path ++ Text.utf8 " would both be written to "
        ++ destination directory path))
    | none =>
      if files.samePath path (destination directory path) then
        some (.usage (path ++ Text.utf8 " would be overwritten by its own output"))
      else refusal? files directory (seen.insert (Path.base path) path) rest

/-- What has become of the files so far. -/
structure BatchState where
  files : Files
  records : List LogRecord := []
  /-- The first failure. -/
  failure : Option Failure := none
deriving Repr, DecidableEq

/-- Translates one file. -/
def translateFile (s : Settings) (canceled : Bool) (files : Files) (path target : Text) :
    Files × List LogRecord × Option Failure :=
  match files.locate path with
  | .error fault => (files, [], some (openFailure path fault))
  | .ok (place, _) =>
    match files.create target with
    | .error fault =>
      (files, [], some (.usage (Text.utf8 "failed to create output: "
        ++ fault.describe "open" target)))
    | .ok (files, made) =>
      let t := translateInput s canceled path (sourceAt files place path) {}
      (files.put made (.file t.sink.taken.toList), t.records, t.failure)

/-- Translates one file after others.  Once there is a failure, the rest counts as cancelled. -/
def BatchState.step (s : Settings) (canceled : Bool) (directory : Text) (b : BatchState)
    (path : Text) : BatchState :=
  let (files, records, failure) :=
    translateFile s (canceled || b.failure.isSome) b.files path (destination directory path)
  ⟨files, b.records ++ records, b.failure.or failure⟩

/-- The record of a batch that is complete. -/
def completeRecord (count : Nat) (directory : Text) : LogRecord :=
  ⟨.info, "batch complete", [("files", .number count), ("output", .text directory)]⟩

/-- Translates several files into a directory.  The file name for diagnostics is each file's own. -/
def batch (s : Settings) (w : World) (directory : Text) (paths : List Text) :
    World × Option Failure :=
  match w.files.makeDirectories directory with
  | .error (path, fault) =>
    (w, some (.usage (Text.utf8 "failed to create output directory: "
      ++ fault.describe "mkdir" path)))
  | .ok files =>
    match refusal? files directory {} paths with
    | some failure => ({ w with files }, some failure)
    | none =>
      let step := BatchState.step { s with filename := [] } w.canceled directory
      let b := paths.foldl step { files }
      let records := if b.failure.isSome then b.records
        else b.records ++ [completeRecord paths.length directory]
      ({ w with files := b.files }.log (leastLevel s) records, b.failure)

end SqlStubs.Command
