import SqlStubs.Settings.Value
import SqlStubs.Yaml.Datum.Decoding

/-!
# Settings files

A settings file is a YAML document: a mapping from the names of settings to their values.  An empty
document chooses nothing.
-/

namespace SqlStubs.SettingsFile

/-- The value of a setting that a datum gives. -/
def value : Yaml.Datum → Value
  | .scalar .null => .null
  | .scalar (.boolean b) => .boolean b
  | .scalar (.integer n) => .integer n
  | .scalar (.float x) => .float x
  | .scalar (.timestamp _) => .other .timestamp
  | .scalar (.text s) => .text s
  | .sequence _ => .other .sequence
  | .mapping _ _ => .other .mapping

/-- A named value; other keys name nothing. -/
def entry? : Yaml.Scalar × Yaml.Datum → Option (Text × Value)
  | (.text name, datum) => some (name, value datum)
  | _ => none

/-- What a settings file says. -/
def read (s : Text) : Except Yaml.Fault (List (Text × Value)) := do
  let document ← Yaml.Document.read s
  return (← document.entries).filterMap entry?

end SqlStubs.SettingsFile
