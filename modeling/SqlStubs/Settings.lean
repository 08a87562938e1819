import SqlStubs.Translator

/-!
# Settings

What a user can choose.  `Settings.problems` lists what is wrong with a choice; settings without
problems are valid.
-/

namespace SqlStubs

/-- What a user can choose. -/
structure Settings where
  /-- The file name for diagnostics, in place of the name of the input. -/
  filename : Text := []
  lenient : Bool := false
  verbose : Bool := false
  voidType : Text := []
  setTemplate : Text := []
  aggregateMarker : Text := []
  /-- How many files a batch may work on at the same time; zero leaves it open. -/
  jobs : Int := 0
  /-- The settings file that was read; empty if there was none. -/
  file : Text := []
deriving Repr, DecidableEq

/-- What can be wrong with settings. -/
inductive SettingsProblem where
  | emptyVoidType
  | emptySetTemplate
  | emptyAggregateMarker
  | negativeJobs (jobs : Int)
deriving Repr, DecidableEq

/-- The wording of a problem. -/
def SettingsProblem.message : SettingsProblem → Text
  | emptyVoidType => Text.utf8 "void_type must not be empty"
  | emptySetTemplate => Text.utf8 "set_template must not be empty"
  | emptyAggregateMarker => Text.utf8 "aggregate_marker must not be empty"
  | negativeJobs jobs => Text.utf8 "jobs must not be negative, got " ++ Text.decimalInt jobs

namespace Settings

/-- The settings if nothing is chosen. -/
def initial : Settings :=
  { voidType := TranslatorOptions.defaultVoidType
    setTemplate := TranslatorOptions.defaultSetTemplate
    aggregateMarker := TranslatorOptions.defaultAggregateMarker }

/-- All that is wrong with the settings. -/
def problems (s : Settings) : List SettingsProblem :=
  (if s.voidType.isEmpty then [.emptyVoidType] else [])
    ++ (if s.setTemplate.isEmpty then [.emptySetTemplate] else [])
    ++ (if s.aggregateMarker.isEmpty then [.emptyAggregateMarker] else [])
    ++ (if s.jobs < 0 then [.negativeJobs s.jobs] else [])

/-- Problems as one message, each on a line. -/
def problemsText (ps : List SettingsProblem) : Text := Text.join [0x0A] (ps.map (·.message))

/-- The options for translating one input.  A chosen file name goes before the input's own. -/
def translatorOptions (s : Settings) (name : Text) : TranslatorOptions :=
  { filename := TranslatorOptions.orDefault s.filename name
    voidType := s.voidType
    setTemplate := s.setTemplate
    aggregateMarker := s.aggregateMarker
    lenient := s.lenient }

end Settings

end SqlStubs
