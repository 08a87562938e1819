import SqlStubs.Settings
import SqlStubs.Settings.Value
import SqlStubs.Table

/-!
# Layers of settings

Settings come from several layers: the command line, the environment, a file, and what holds if
nothing is chosen.  Each key is decided on its own, by the first layer that has a value for it
(`Layer.effective?_cons`); what later layers say about it does not matter, not even if it is wrong.
-/

namespace SqlStubs

/-- The keys of the settings. -/
inductive SettingKey where
  | filename | lenient | verbose | voidType | setTemplate | aggregateMarker | jobs
deriving Repr, DecidableEq

/-- The name of a key. -/
def SettingKey.name : SettingKey → String
  | filename => "filename"
  | lenient => "lenient"
  | verbose => "verbose"
  | voidType => "void_type"
  | setTemplate => "set_template"
  | aggregateMarker => "aggregate_marker"
  | jobs => "jobs"

/-- A layer: values by the name of their key.  Names that are no key are of no account. -/
abbrev Layer := Table Text Value

namespace Layer

/-- What holds if nothing is chosen. -/
def initial : Layer := .ofList
  [(Text.utf8 "filename", .text []), (Text.utf8 "lenient", .boolean false),
    (Text.utf8 "verbose", .boolean false),
    (Text.utf8 "void_type", .text TranslatorOptions.defaultVoidType),
    (Text.utf8 "set_template", .text TranslatorOptions.defaultSetTemplate),
    (Text.utf8 "aggregate_marker", .text TranslatorOptions.defaultAggregateMarker),
    (Text.utf8 "jobs", .integer 0)]

/-- The value of a key in the first layer that has one. -/
def effective? (layers : List Layer) (key : SettingKey) : Option Value :=
  layers.findSome? (·.get? (Text.utf8 key.name))

/-- A value in the first layer decides; without one the layers after it do. -/
theorem effective?_cons (layer : Layer) (layers : List Layer) (key : SettingKey) :
    effective? (layer :: layers) key
      = (layer.get? (Text.utf8 key.name)).or (effective? layers key) := by
  simp only [effective?, List.findSome?_cons]
  cases layer.get? (Text.utf8 key.name) <;> rfl

/-- What a variable of the environment chooses, given its name in lower case.  A name with a point
in it makes what comes before the point a mapping. -/
def ofVariable (name value : Text) : Text × Value :=
  match Text.splitAtFirst? [0x2E] name with
  | none => (name, .text value)
  | some (before, _) => (before, .other .mapping)

/-- What variables of the environment choose, given their names without the common first part.  Case
does not matter.  A value goes before a mapping of the same name, in whatever order they come. -/
def ofEnvironment (environment : List (Text × Text)) : Layer :=
  let lowered := environment.map fun (name, value) => (Text.lowercase name, value)
  let named := lowered.filter fun (name, _) => !name.isEmpty
  let ordered := named.filter (·.1.contains 0x2E) ++ named.filter (!·.1.contains 0x2E)
  .ofList (ordered.map fun (name, value) => ofVariable name value)

end Layer

/-- Why layers make no settings. -/
inductive SettingsFault where
  /-- The settings file cannot be used, for this reason. -/
  | file (path reason : Text)
  /-- Values that cannot be converted, by key. -/
  | conversion (faults : List (SettingKey × ConversionFault))
  | invalid (problems : List SettingsProblem)
deriving Repr, DecidableEq

/-- The wording of a fault. -/
def SettingsFault.message : SettingsFault → Text
  | file path reason => Text.utf8 "error reading config file " ++ path ++ Text.utf8 ": " ++ reason
  | conversion faults =>
    Text.utf8 "unable to decode config: decoding failed due to the following error(s):\n\n"
      ++ Text.join [0x0A] (faults.map fun (key, fault) =>
        Text.utf8 "'" ++ Text.utf8 key.name ++ Text.utf8 "' " ++ fault.message)
  | invalid problems => Text.utf8 "invalid configuration: " ++ Settings.problemsText problems

namespace Settings

/-- A converted value, or the fault with its key. -/
def converted {α : Type} (convert : Value → Except ConversionFault α) (layers : List Layer)
    (key : SettingKey) : Except (SettingKey × ConversionFault) α :=
  (convert ((Layer.effective? layers key).getD .null)).mapError fun fault => (key, fault)

/-- The fault of a conversion, if it has one. -/
def faultOf {α : Type} :
    Except (SettingKey × ConversionFault) α → List (SettingKey × ConversionFault)
  | .ok _ => []
  | .error fault => [fault]

/-- The settings that layers make.  All values that cannot be converted are reported together, and
only settings that were converted are checked. -/
def ofLayers (layers : List Layer) (file : Text) : Except SettingsFault Settings :=
  let filename := converted Value.asText layers .filename
  let lenient := converted Value.asBool layers .lenient
  let verbose := converted Value.asBool layers .verbose
  let voidType := converted Value.asText layers .voidType
  let setTemplate := converted Value.asText layers .setTemplate
  let aggregateMarker := converted Value.asText layers .aggregateMarker
  let jobs := converted Value.asInt layers .jobs
  match filename, lenient, verbose, voidType, setTemplate, aggregateMarker, jobs with
  | .ok filename, .ok lenient, .ok verbose, .ok voidType, .ok setTemplate, .ok aggregateMarker,
      .ok jobs =>
    let s : Settings :=
      { filename, lenient, verbose, voidType, setTemplate, aggregateMarker, jobs, file }
    if s.problems.isEmpty then .ok s else .error (.invalid s.problems)
  | _, _, _, _, _, _, _ =>
    .error (.conversion (faultOf filename ++ faultOf lenient ++ faultOf verbose ++ faultOf voidType
      ++ faultOf setTemplate ++ faultOf aggregateMarker ++ faultOf jobs))

end Settings

end SqlStubs
