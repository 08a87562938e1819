import SqlStubs.Command
import SqlStubs.Proofs.Settings.Layers

/-!
# Every setting comes from the first layer that has it

`Sources` is all that settings are loaded from, where the settings file can be read and no two flags
or variables are for the same key.  The value of a key is that of a flag that is given, or else of a
variable, or else of the file, or else the initial one (`Sources.value`), and the settings are these
values, converted and checked (`Sources.Makes`).  What a lower layer says about a key is neither
converted nor checked, so that it may be anything (`load_noninterference`).
-/

namespace SqlStubs

/-! ### Settings from layers -/

namespace Settings

variable {layers layers' : List Layer} {file : Text} {s : Settings}

theorem converted_eq_ok_iff {α : Type} {convert : Value → Except ConversionFault α}
    {key : SettingKey} {v : Value} {x : α} (h : Layer.effective? layers key = some v) :
    converted convert layers key = .ok x ↔ convert v = .ok x := by
  rw [converted, h, Option.getD_some]
  cases convert v <;> simp [Except.mapError]

/-- Settings without problems. -/
theorem problems_eq_nil_iff :
    s.problems = [] ↔
      s.voidType ≠ [] ∧ s.setTemplate ≠ [] ∧ s.aggregateMarker ≠ [] ∧ 0 ≤ s.jobs := by
  simp [problems]

/-- Layers make settings if all values can be converted and no problem is left. -/
theorem ofLayers_eq_ok_iff :
    ofLayers layers file = .ok s ↔
      (converted Value.asText layers .filename = .ok s.filename ∧
        converted Value.asBool layers .lenient = .ok s.lenient ∧
        converted Value.asBool layers .verbose = .ok s.verbose ∧
        converted Value.asText layers .voidType = .ok s.voidType ∧
        converted Value.asText layers .setTemplate = .ok s.setTemplate ∧
        converted Value.asText layers .aggregateMarker = .ok s.aggregateMarker ∧
        converted Value.asInt layers .jobs = .ok s.jobs) ∧
      s.file = file ∧ s.problems = [] := by
  constructor
  · intro h
    rw [ofLayers] at h
    dsimp only at h
    split at h
    · rename_i hfilename hlenient hverbose hvoidType hsetTemplate haggregateMarker hjobs
      split at h
      · rename_i hproblems
        cases h
        exact ⟨⟨hfilename, hlenient, hverbose, hvoidType, hsetTemplate, haggregateMarker, hjobs⟩,
          rfl, List.isEmpty_iff.1 hproblems⟩
      · cases h
    · cases h
  · rintro ⟨⟨hfilename, hlenient, hverbose, hvoidType, hsetTemplate, haggregateMarker, hjobs⟩,
      rfl, hproblems⟩
    simp only [ofLayers, hfilename, hlenient, hverbose, hvoidType, hsetTemplate, haggregateMarker,
      hjobs]
    rw [if_pos (List.isEmpty_iff.2 hproblems)]

/-- Layers count by the values that are in effect only. -/
theorem ofLayers_congr (h : ∀ key, Layer.effective? layers key = Layer.effective? layers' key) :
    ofLayers layers file = ofLayers layers' file := by
  simp only [ofLayers, converted, h]

/-- Settings that were converted, if nothing is wrong with them. -/
def checked (s : Settings) : Except SettingsFault Settings :=
  if s.problems.isEmpty then .ok s else .error (.invalid s.problems)

/-- The check does not look at the file. -/
theorem checked_file (s : Settings) (file : Text) :
    checked { s with file } = (checked s).map fun s => { s with file } := by
  have hsame : ({ s with file } : Settings).problems = s.problems := rfl
  rw [checked, checked, hsame]
  split <;> rfl

/-- The file is shown in the settings, and has no other effect. -/
theorem ofLayers_file (file' : Text) :
    ofLayers layers file' = (ofLayers layers file).map fun s => { s with file := file' } := by
  unfold ofLayers
  dsimp only
  split
  · exact checked_file ⟨_, _, _, _, _, _, _, file⟩ file'
  · rfl

end Settings

/-! ### Sources of settings -/

/-- The value of a key that nothing chooses. -/
def SettingKey.initial : SettingKey → Value
  | filename => .text []
  | lenient => .boolean false
  | verbose => .boolean false
  | voidType => .text TranslatorOptions.defaultVoidType
  | setTemplate => .text TranslatorOptions.defaultSetTemplate
  | aggregateMarker => .text TranslatorOptions.defaultAggregateMarker
  | jobs => .integer 0

theorem Layer.get?_initial (key : SettingKey) :
    initial.get? (Text.utf8 key.name) = some key.initial := by
  cases key <;> rfl

/-- Names of keys are not empty, and without a point. -/
theorem SettingKey.name_plain (key : SettingKey) :
    0x2E ∉ Text.utf8 key.name ∧ Text.utf8 key.name ≠ [] := by
  cases key <;> decide

/-- No two flags of a command are for the same key. -/
theorem distinctKeys_flagsOf (name : Command.Name) : DistinctKeys (Command.flagsOf name) := by
  cases name <;> decide +kernel

/-- All that settings are loaded from. -/
structure Sources where
  files : Files
  /-- The settings file that is asked for; empty if one is to be looked for. -/
  named : Text
  environment : List (Text × Text)
  /-- The flags that there are. -/
  flags : List Flag
  /-- The flags that are given. -/
  parsed : ParsedArguments
  /-- What the settings file says; nothing if there is none. -/
  file : Layer
  readable :
    (Settings.findFile files named = [] ∧ file = {}) ∨
      (Settings.findFile files named ≠ [] ∧
        Settings.readFile files (Settings.findFile files named) = .ok file)
  distinct_variables : ((Settings.settingVariables environment).map Prod.fst).Nodup
  distinct_flags : DistinctKeys flags
  parsed_of : ∃ arguments, ParsedArguments.ofList flags arguments = .ok parsed

namespace Sources

variable {a b : Sources} {key : SettingKey} {s : Settings}

/-- The settings, or why there are none. -/
def load (a : Sources) : Except SettingsFault Settings :=
  Settings.load a.files a.environment a.named a.parsed.layer

/-- The settings file; empty if there is none. -/
def path (a : Sources) : Text := Settings.findFile a.files a.named

/-- The value of the flag for a key, if it is given. -/
def flag? (a : Sources) (key : SettingKey) : Option Value :=
  (a.flags.find? fun f => keyOfFlag (Text.utf8 f.name) = Text.utf8 key.name).bind
    fun f => a.parsed.flags.get? (Text.utf8 f.name)

/-- What the environment says about a key. -/
def fromEnvironment? (a : Sources) (key : SettingKey) : Option Value :=
  Settings.fromVariables? a.environment (Text.utf8 key.name)

/-- What the settings file says about a key. -/
def fromFile? (a : Sources) (key : SettingKey) : Option Value := a.file.get? (Text.utf8 key.name)

/-- The value of a key that is in effect. -/
def value (a : Sources) (key : SettingKey) : Value :=
  match a.flag? key, a.fromEnvironment? key, a.fromFile? key with
  | some v, _, _ => v
  | none, some v, _ => v
  | none, none, some v => v
  | none, none, none => key.initial

/-- The values in effect can be converted to these settings, and nothing is wrong with them. -/
structure Makes (a : Sources) (s : Settings) : Prop where
  filename : (a.value .filename).asText = .ok s.filename
  lenient : (a.value .lenient).asBool = .ok s.lenient
  verbose : (a.value .verbose).asBool = .ok s.verbose
  voidType : (a.value .voidType).asText = .ok s.voidType
  setTemplate : (a.value .setTemplate).asText = .ok s.setTemplate
  aggregateMarker : (a.value .aggregateMarker).asText = .ok s.aggregateMarker
  jobs : (a.value .jobs).asInt = .ok s.jobs
  file : s.file = a.path
  voidType_ne : s.voidType ≠ []
  setTemplate_ne : s.setTemplate ≠ []
  aggregateMarker_ne : s.aggregateMarker ≠ []
  jobs_nonneg : 0 ≤ s.jobs

/-- Two sources say the same about a key down to the first layer that has it.  Below that, each may
say anything, or nothing. -/
structure Agree (a b : Sources) (key : SettingKey) : Prop where
  flag : a.flag? key = b.flag? key
  environment : a.flag? key = none → a.fromEnvironment? key = b.fromEnvironment? key
  file : a.flag? key = none → a.fromEnvironment? key = none → a.fromFile? key = b.fromFile? key

/-- The layers that loading makes of sources. -/
def layers (a : Sources) : List Layer :=
  [a.parsed.layer, Settings.environmentLayer a.environment, a.file, Layer.initial]

theorem load_eq : a.load = Settings.ofLayers a.layers a.path := by
  unfold load Settings.load
  obtain ⟨hnone, hfile⟩ | ⟨hsome, hread⟩ := a.readable
  · rw [layers, hfile]
    simp only [path, hnone]
    rfl
  · simp only [path, hread, List.isEmpty_eq_false_iff.2 hsome]
    rfl

/-- The value in effect comes from the first layer that has one. -/
theorem effective?_layers : Layer.effective? a.layers key = some (a.value key) := by
  obtain ⟨arguments, hparsed⟩ := a.parsed_of
  have hflag : a.parsed.layer.get? (Text.utf8 key.name) = a.flag? key :=
    ParsedArguments.get?_layer hparsed a.distinct_flags
  have hvariable : (Settings.environmentLayer a.environment).get? (Text.utf8 key.name) =
      a.fromEnvironment? key :=
    Settings.get?_environmentLayer a.distinct_variables key.name_plain.1 key.name_plain.2
  have hfile : a.file.get? (Text.utf8 key.name) = a.fromFile? key := rfl
  simp only [layers, Layer.effective?_cons, hflag, hvariable, hfile, Layer.get?_initial, value]
  cases a.flag? key <;> cases a.fromEnvironment? key <;> cases a.fromFile? key <;> rfl

theorem load_eq_ok_iff : a.load = .ok s ↔ a.Makes s := by
  rw [load_eq, Settings.ofLayers_eq_ok_iff, Settings.problems_eq_nil_iff]
  simp only [Settings.converted_eq_ok_iff effective?_layers]
  constructor
  · rintro ⟨⟨h1, h2, h3, h4, h5, h6, h7⟩, hfile, hv, hs, ha, hj⟩
    exact ⟨h1, h2, h3, h4, h5, h6, h7, hfile, hv, hs, ha, hj⟩
  · rintro ⟨h1, h2, h3, h4, h5, h6, h7, hfile, hv, hs, ha, hj⟩
    exact ⟨⟨h1, h2, h3, h4, h5, h6, h7⟩, hfile, hv, hs, ha, hj⟩

theorem Agree.value_eq (h : Agree a b key) : a.value key = b.value key := by
  obtain ⟨hflag, henvironment, hfile⟩ := h
  unfold value
  rw [← hflag]
  cases hf : a.flag? key with
  | some v => rfl
  | none =>
    rw [← henvironment hf]
    cases he : a.fromEnvironment? key with
    | some v => rfl
    | none => rw [← hfile hf he]

/-- Sources that agree on the values in effect differ at most in the file that is shown. -/
theorem load_eq_of_value_eq (h : ∀ key, a.value key = b.value key) :
    b.load = a.load.map fun s => { s with file := b.path } := by
  have heffective : ∀ key, Layer.effective? a.layers key = Layer.effective? b.layers key := by
    intro key
    rw [effective?_layers, effective?_layers, h key]
  rw [load_eq, load_eq, ← Settings.ofLayers_congr heffective]
  exact Settings.ofLayers_file b.path

/-- Settings are loaded exactly if the values in effect can be converted and nothing is wrong with
them.  What lower layers say about a key that a higher one has makes no difference, to the settings
or to the fault. -/
theorem load_noninterference (a : Sources) :
    (∀ s, a.load = .ok s ↔ a.Makes s) ∧
      ∀ b : Sources, (∀ key, Agree a b key) →
        b.load = a.load.map (fun s => { s with file := b.path }) ∧
        (b.path = a.path → b.load = a.load) := by
  refine ⟨fun s => load_eq_ok_iff, fun b hagree => ?_⟩
  -- agreement down to the first layer that has a key is agreement on its value
  have hload := load_eq_of_value_eq fun key => (hagree key).value_eq
  refine ⟨hload, fun hpath => ?_⟩
  rw [hload]
  cases ha : a.load with
  | error => rfl
  | ok s =>
    have hfile : s.file = b.path := (load_eq_ok_iff.1 ha).file.trans hpath.symm
    rw [← hfile]
    rfl

/-- A flag goes before a variable that spells no number and an entry that is no number, and a
variable goes before an empty text.  All three can be changed or left out. -/
theorem load_noninterference_undecodable :
    let s : Settings := { Settings.initial with
      voidType := Text.utf8 "nothing", jobs := 3, file := Text.utf8 "/sqldox.yaml" }
    ∃ a b : Sources,
      a.flag? .jobs = some (.integer 3) ∧
      a.fromEnvironment? .jobs = some (.text (Text.utf8 "many")) ∧ b.fromEnvironment? .jobs = none ∧
      a.fromFile? .jobs = some (.other .sequence) ∧ b.fromFile? .jobs = some (.integer 2) ∧
      a.fromEnvironment? .voidType = some (.text (Text.utf8 "nothing")) ∧
      a.fromFile? .voidType = some (.text []) ∧ b.fromFile? .voidType = none ∧
      (∀ key, Agree a b key) ∧ a.load = .ok s ∧ b.load = .ok s := by
  intro s
  let given : ParsedArguments := { flags.entries := [(Text.utf8 "jobs", .integer 3)] }
  have hgiven : ParsedArguments.ofList (Command.flagsOf .batch) [Text.utf8 "--jobs=3"] =
      .ok given := by decide +kernel
  let files (content : Text) : Files :=
    { nodes.entries := [([Text.utf8 "sqldox.yaml"], .file content)] }
  -- where the file is found does not depend on what it says
  have hfind : ∀ content, Settings.findFile (files content) [] = Text.utf8 "/sqldox.yaml" :=
    fun content => rfl
  have hread : ∀ content entries, SettingsFile.read content = .ok entries →
      Settings.readFile (files content) (Text.utf8 "/sqldox.yaml") = .ok (.ofList entries) := by
    intro content entries h
    have hlocate : (files content).locate (Path.clean (Text.utf8 "/sqldox.yaml")) =
        .ok ([Text.utf8 "sqldox.yaml"], .file content) := rfl
    have hcontent : (files content).contentAt [Text.utf8 "sqldox.yaml"] = .ok content := rfl
    simp only [Settings.readFile, hlocate, hcontent, h]
  let a : Sources :=
    { files := files (Text.utf8 "jobs: []\nvoid_type: ''\n")
      named := []
      environment := [(Text.utf8 "SQLDOX_JOBS", Text.utf8 "many"),
        (Text.utf8 "SQLDOX_void_TYPE", Text.utf8 "nothing")]
      flags := Command.flagsOf .batch
      parsed := given
      file := .ofList [(Text.utf8 "jobs", .other .sequence), (Text.utf8 "void_type", .text [])]
      readable := .inr (by rw [hfind]; exact ⟨by decide, hread _ _ (by decide +kernel)⟩)
      distinct_variables := by decide +kernel
      distinct_flags := distinctKeys_flagsOf .batch
      parsed_of := ⟨_, hgiven⟩ }
  let b : Sources :=
    { files := files (Text.utf8 "jobs: 2\n")
      named := []
      environment := [(Text.utf8 "SQLDOX_VOID_TYPE", Text.utf8 "nothing")]
      flags := Command.flagsOf .batch
      parsed := given
      file := .ofList [(Text.utf8 "jobs", .integer 2)]
      readable := .inr (by rw [hfind]; exact ⟨by decide, hread _ _ (by decide +kernel)⟩)
      distinct_variables := by decide +kernel
      distinct_flags := distinctKeys_flagsOf .batch
      parsed_of := ⟨_, hgiven⟩ }
  have hjobs : a.flag? .jobs = some (.integer 3) := rfl
  have hvoidType : a.fromEnvironment? .voidType = some (.text (Text.utf8 "nothing")) := rfl
  have hagree : ∀ key, Agree a b key := by
    intro key
    cases key with
    | jobs =>
      have hset : a.flag? .jobs ≠ none := hjobs ▸ Option.some_ne_none _
      exact ⟨rfl, fun h => absurd h hset, fun h => absurd h hset⟩
    | voidType =>
      have hset : a.fromEnvironment? .voidType ≠ none := hvoidType ▸ Option.some_ne_none _
      exact ⟨rfl, fun _ => rfl, fun _ h => absurd h hset⟩
    | _ => exact ⟨rfl, fun _ => rfl, fun _ _ => rfl⟩
  have hmakes : a.Makes s :=
    { filename := rfl, lenient := rfl, verbose := rfl, voidType := rfl, setTemplate := rfl
      aggregateMarker := rfl, jobs := rfl, file := (hfind _).symm
      voidType_ne := by decide, setTemplate_ne := by decide, aggregateMarker_ne := by decide
      jobs_nonneg := by decide }
  obtain ⟨hiff, hagrees⟩ := load_noninterference a
  have hload : a.load = .ok s := (hiff s).2 hmakes
  have hpath : b.path = a.path := (hfind _).trans (hfind _).symm
  exact ⟨a, b, hjobs, rfl, rfl, rfl, rfl, hvoidType, rfl, rfl, hagree, hload,
    ((hagrees b hagree).2 hpath).trans hload⟩

end Sources

end SqlStubs
