import SqlStubs.Command
import SqlStubs.Proofs.Command.Translate

/-!
# How translating one input ends

`run_root`: with a standard output that takes everything, the exit status tells which of three
things has happened.  It is 1 if the command was not begun, and then nothing was written.  It is 2
if the input could not be read, or has a statement that does not parse and is not left out; then the
statements before it were written, and the error is the last line of the messages.  Otherwise it is
0, and the whole input was written with a line break at the end.

The two ways in which a command may go are `UsageFails` and `Begins`.  One of them always holds, and
each of them determines the exit status, so that they exclude each other.
-/

namespace SqlStubs

open Translator

/-! ### The first error of a source -/

/-- Where the items are known up to the first error, so are the error and what is written without
it. -/
theorem firstError?_of_eq {items rest : List Item} {before : List Statement} {e : SyntaxError}
    (h : items = before.map .statement ++ .failure e :: rest) :
    firstError? items = some e ∧ applied false items = before := by
  subst h
  induction before with
  | nil => exact ⟨rfl, rfl⟩
  | cons s before ih => exact ⟨ih.1, congrArg (s :: ·) ih.2⟩

/-- Before the first error there are only statements. -/
theorem exists_eq_of_firstError? {items : List Item} {e : SyntaxError}
    (h : firstError? items = some e) :
    ∃ (before : List Statement) (rest : List Item),
      items = before.map .statement ++ .failure e :: rest := by
  induction items with
  | nil => cases h
  | cons item items ih =>
    cases item with
    | statement s =>
      obtain ⟨before, rest, rfl⟩ := ih h
      exact ⟨s :: before, rest, rfl⟩
    | failure e' =>
      cases h
      exact ⟨[], items, rfl⟩

namespace Command

variable {w : World} {arguments : List Text} {s : Settings} {name line : Text}
  {source : Except Text Text} {before : List Statement} {p : ParsedArguments}

/-! ### The input -/

/-- An input fails after some statements, with this last line: it cannot be read, or has a statement
that does not parse and is not left out. -/
inductive InputFails (s : Settings) (name : Text) : Except Text Text → List Statement → Text → Prop
  | unreadable {reason : Text} :
      InputFails s name (.error reason) [] (Text.utf8 "failed to read input: " ++ reason)
  | invalid {content : Text} {before : List Statement} {e : SyntaxError} {rest : List Item}
      (strict : s.lenient = false)
      (items : Parser.items (Lexer.tokens content) = before.map .statement ++ .failure e :: rest) :
      InputFails s name (.ok content) before
        ((if s.filename.isEmpty then name else s.filename) ++ Text.utf8 ":"
          ++ Text.decimalInt e.location.line ++ Text.utf8 "." ++ Text.decimalInt e.location.column
          ++ Text.utf8 ": " ++ e.cause.message)

/-- What has been written when an input fails is handed to the sink. -/
theorem taken_translateInput_of_some {content : Text} {failure : TranslatorFailure}
    (h : ((Translator.new (s.translatorOptions name) {} {}).translate content).2 = some failure) :
    (translateInput s false name (.ok content) {}).sink.taken.toList =
      ((Translator.new (s.translatorOptions name) {} {}).translate content).1.flush.output := by
  unfold translateInput translateUnless
  dsimp only
  rw [if_neg (by decide)]
  generalize (Translator.new (s.translatorOptions name) {} {}).translate content = r at h ⊢
  obtain ⟨t, _⟩ := r
  cases h
  rfl

/-- An error in an input as the last line shows it. -/
theorem text_translatorOptions (hname : name ≠ []) (e : SyntaxError) :
    e.text (s.translatorOptions name).filename =
      (if s.filename.isEmpty then name else s.filename) ++ Text.utf8 ":"
        ++ Text.decimalInt e.location.line ++ Text.utf8 "." ++ Text.decimalInt e.location.column
        ++ Text.utf8 ": " ++ e.cause.message := by
  -- the name of the input stands in for a file name that is not chosen, so one is shown
  have hfilename : (s.translatorOptions name).filename.isEmpty = false := by
    show (if s.filename.isEmpty then name else s.filename).isEmpty = false
    split
    · simpa using hname
    · rename_i hchosen
      simpa using hchosen
  have hcolon : Text.utf8 ":" = [0x3A] := by decide
  have hpoint : Text.utf8 "." = [0x2E] := by decide
  rw [SyntaxError.text, Location.text, positionText, hfilename, if_neg (by decide), hcolon, hpoint]
  simp only [List.append_assoc]
  rfl

/-- An input that fails leaves the statements before the failure. -/
theorem translateInput_of_fails (hname : name ≠ []) (h : InputFails s name source before line) :
    (translateInput s false name source {}).sink.taken.toList =
        rendering (s.translatorOptions name).withDefaults {} [] before ∧
      (translateInput s false name source {}).failure = some (.input line) := by
  cases h with
  | unreadable => exact ⟨rfl, rfl⟩
  | @invalid content before e rest strict items =>
    obtain ⟨herror, happlied⟩ := firstError?_of_eq items
    -- a strict translator stops at the first error
    have hresult : ((Translator.new (s.translatorOptions name) {} {}).translate content).2 =
        some (.invalid (s.translatorOptions name).filename e) := by
      refine (run_snd not_failed_translate).trans ?_
      show (if s.lenient then none else _) = _
      rw [herror, strict]
      rfl
    constructor
    · rw [taken_translateInput_of_some hresult, output_flush_translate]
      show rendering _ _ _ (applied s.lenient _) = _
      rw [strict, happlied]
    · rw [(translateInput_ok s name content).1, hresult, ← text_translatorOptions hname]
      rfl

/-- An input that does not fail is translated as a whole, with a line break at the end. -/
theorem translateInput_of_not_fails (h : ∀ before line, ¬InputFails s name source before line) :
    ∃ content, source = .ok content ∧ (translateInput s false name source {}).failure = none ∧
      (translateInput s false name source {}).sink.taken.toList =
        rendering (s.translatorOptions name).withDefaults {} []
          (applied true (Parser.items (Lexer.tokens content))) ++ [0x0A] := by
  cases source with
  | error reason => exact absurd .unreadable (h [] _)
  | ok content =>
    -- errors are left out, or there are none
    have hclean : s.lenient = true ∨ firstError? (Parser.items (Lexer.tokens content)) = none := by
      cases hlenient : s.lenient with
      | true => exact .inl rfl
      | false =>
        cases herror : firstError? (Parser.items (Lexer.tokens content)) with
        | none => exact .inr rfl
        | some e =>
          obtain ⟨before, rest, hitems⟩ := exists_eq_of_firstError? herror
          exact absurd (.invalid hlenient hitems) (h before _)
    have hsuccess : (translateInput s false name (.ok content) {}).failure = none :=
      failure_translateInput_eq_none_iff.2 ⟨rfl, content, rfl, hclean⟩
    -- in both cases the same statements are written
    have happlied : applied s.lenient (Parser.items (Lexer.tokens content)) =
        applied true (Parser.items (Lexer.tokens content)) := by
      cases hlenient : s.lenient with
      | true => rfl
      | false =>
        rw [hlenient] at hclean
        exact applied_of_firstError?_eq_none (hclean.resolve_left nofun)
    refine ⟨content, rfl, hsuccess, ?_⟩
    rw [taken_translateInput hsuccess, output_flush_translate]
    show rendering _ _ _ (applied s.lenient _) ++ _ = _
    rw [happlied]

/-! ### The command -/

/-- Neither another command nor help nor the version is asked for. -/
structure AsksToTranslate (arguments : List Text) : Prop where
  root : (find arguments).1 = .root
  help : ParsedArguments.ofList (flagsOf .root) (find arguments).2 ≠ .error .help
  version : ∀ p, ParsedArguments.ofList (flagsOf .root) (find arguments).2 = .ok p →
    p.flags.get? (Text.utf8 "version") ≠ some (.boolean true)

/-- The flags, the number of arguments or the settings are wrong, or the input cannot be opened. -/
inductive UsageFails (w : World) (arguments : List Text) : Prop
  | flags {fault : FlagFault}
      (h : ParsedArguments.ofList (flagsOf .root) (find arguments).2 = .error fault)
  | count {p : ParsedArguments}
      (read : ParsedArguments.ofList (flagsOf .root) (find arguments).2 = .ok p)
      (h : 1 < p.others.length)
  | settings {p : ParsedArguments} {fault : SettingsFault}
      (read : ParsedArguments.ofList (flagsOf .root) (find arguments).2 = .ok p)
      (h : Settings.load w.files w.environment (p.text "config") p.layer = .error fault)
  | input {p : ParsedArguments} {path : Text} {fault : FileFault}
      (read : ParsedArguments.ofList (flagsOf .root) (find arguments).2 = .ok p)
      (h : p.others = [path]) (located : w.files.locate path = .error fault)

/-- The name of the input that arguments ask for, and its text or the reason why it cannot be
read. -/
inductive Opens (w : World) : List Text → Text → Except Text Text → Prop
  | stdin : Opens w [] (Text.utf8 "stdin") (.ok w.input)
  | file {path : Text} {place : Place} {node : Node}
      (located : w.files.locate path = .ok (place, node)) :
      Opens w [path] path (sourceAt w.files place path)

/-- The flags and the settings are right, and the input is opened. -/
def Begins (w : World) (arguments : List Text) (s : Settings) (name : Text)
    (source : Except Text Text) : Prop :=
  ∃ p, ParsedArguments.ofList (flagsOf .root) (find arguments).2 = .ok p ∧
    Settings.load w.files w.environment (p.text "config") p.layer = .ok s ∧
    Opens w p.others name source

/-- A command is begun unless its usage is wrong. -/
theorem usageFails_or_begins (w : World) (arguments : List Text) :
    UsageFails w arguments ∨ ∃ s name source, Begins w arguments s name source := by
  cases hread : ParsedArguments.ofList (flagsOf .root) (find arguments).2 with
  | error fault => exact .inl (.flags hread)
  | ok p =>
    cases hload : Settings.load w.files w.environment (p.text "config") p.layer with
    | error fault => exact .inl (.settings hread hload)
    | ok s =>
      match hothers : p.others with
      | [] => exact .inr ⟨s, _, _, p, hread, hload, by rw [hothers]; exact .stdin⟩
      | [path] =>
        cases hlocate : w.files.locate path with
        | error fault => exact .inl (.input hread hothers hlocate)
        | ok located =>
          exact .inr ⟨s, _, _, p, hread, hload, by rw [hothers]; exact .file hlocate⟩
      | _ :: _ :: _ => exact .inl (.count hread (by rw [hothers]; simp))

/-- An input has a name. -/
theorem Begins.name_ne_nil (h : Begins w arguments s name source) : name ≠ [] := by
  obtain ⟨p, -, -, hopens⟩ := h
  generalize p.others = others at hopens
  cases hopens with
  | stdin => decide
  | file located =>
    rintro rfl
    cases located

theorem runCommand_root (hasks : AsksToTranslate arguments)
    (hread : ParsedArguments.ofList (flagsOf .root) (find arguments).2 = .ok p) :
    runCommand .root w (find arguments).2 =
      (countFault? .root p.others).elim (withSettings .root w p)
        fun message => (w, some (.usage message)) := by
  rw [runCommand, hread]
  dsimp only
  rw [if_neg (hasks.version p hread)]
  cases countFault? .root p.others <;> rfl

theorem log_nil (w : World) (least : Level) : w.log least [] = w := by
  show { w with messages := w.messages ++ [] } = w
  rw [List.append_nil]

theorem messages_log (w : World) (least : Level) (records : List LogRecord) :
    (w.log least records).messages = w.messages ++ Log.lines least records := rfl

/-- Records are logged one by one, each on its own. -/
theorem lines_append (least : Level) (front rest : List LogRecord) :
    Log.lines least (front ++ rest) = Log.lines least front ++ Log.lines least rest := by
  rw [Log.lines, List.filter_append, List.flatMap_append]
  rfl

/-- With its settings loaded, the command translates its input in a world in which at most a record
has been logged. -/
theorem withSettings_root
    (hload : Settings.load w.files w.environment (p.text "config") p.layer = .ok s) :
    ∃ records,
      withSettings .root w p = translate s (w.log (leastLevel s) records) p.others.head? := by
  obtain ⟨records, hrecords⟩ : ∃ records, (if s.file.isEmpty then w
      else w.log (leastLevel s) [⟨.debug, "using config file", [("path", .text s.file)]⟩]) =
      w.log (leastLevel s) records := by
    split
    · exact ⟨[], (log_nil w _).symm⟩
    · exact ⟨_, rfl⟩
  refine ⟨records, ?_⟩
  rw [withSettings, hload, ← hrecords]
  rfl

/-- A command that is not begun fails as wrong usage and writes nothing. -/
theorem runCommand_of_usageFails (hasks : AsksToTranslate arguments) (h : UsageFails w arguments) :
    ∃ w' failure, runCommand .root w (find arguments).2 = (w', some failure) ∧
      w'.output = w.output ∧ failure.status = some usageStatus := by
  cases h with
  | flags h =>
    rw [runCommand, h]
    exact ⟨w, _, rfl, rfl, rfl⟩
  | @count p read h =>
    obtain ⟨message, hmessage⟩ : ∃ message, countFault? .root p.others = some message :=
      ⟨_, if_pos h⟩
    rw [runCommand_root hasks read, hmessage]
    exact ⟨w, _, rfl, rfl, rfl⟩
  | @settings p fault read h =>
    rw [runCommand_root hasks read]
    cases countFault? .root p.others with
    | some message => exact ⟨w, _, rfl, rfl, rfl⟩
    | none =>
      rw [Option.elim_none, withSettings, h]
      exact ⟨w, _, rfl, rfl, rfl⟩
  -- the number of arguments is right, and the settings may be wrong as well
  | @input p path fault read h located =>
    have hcount : countFault? .root p.others = none := by
      rw [h]
      rfl
    rw [runCommand_root hasks read, hcount, Option.elim_none]
    cases hload : Settings.load w.files w.environment (p.text "config") p.layer with
    | error fault =>
      rw [withSettings, hload]
      exact ⟨w, _, rfl, rfl, rfl⟩
    | ok s =>
      obtain ⟨records, hrecords⟩ := @withSettings_root w s p hload
      have hlocated : (w.log (leastLevel s) records).files.locate path = .error fault := located
      rw [hrecords, h, List.head?_cons, translate]
      dsimp only
      rw [hlocated]
      exact ⟨_, _, rfl, rfl, rfl⟩

/-- A command that is begun translates its input. -/
theorem runCommand_of_begins (hasks : AsksToTranslate arguments)
    (h : Begins w arguments s name source) :
    ∃ records, runCommand .root w (find arguments).2 =
      ({ w with output := (translateInput s w.canceled name source w.output).sink }.log
          (leastLevel s) records,
        (translateInput s w.canceled name source w.output).failure) := by
  obtain ⟨p, hread, hload, hopens⟩ := h
  obtain ⟨records, hrecords⟩ := @withSettings_root w s p hload
  have hcount : countFault? .root p.others = none := by
    generalize p.others = others at hopens
    cases hopens <;> rfl
  rw [runCommand_root hasks hread, hcount, Option.elim_none, hrecords]
  refine ⟨records ++ (translateInput s w.canceled name source w.output).records, ?_⟩
  -- the records that were logged before have no part in the translation
  have htranslate : translate s (w.log (leastLevel s) records) p.others.head? =
      ({ w.log (leastLevel s) records with
          output := (translateInput s w.canceled name source w.output).sink }.log (leastLevel s)
          (translateInput s w.canceled name source w.output).records,
        (translateInput s w.canceled name source w.output).failure) := by
    generalize p.others = others at hopens
    cases hopens with
    | stdin => rfl
    | @file _ place node located =>
      have hlocated : (w.log (leastLevel s) records).files.locate name = .ok (place, node) :=
        located
      rw [List.head?_cons, translate]
      dsimp only
      rw [hlocated]
      rfl
  rw [htranslate]
  show (World.mk .., _) = (World.mk .., _)
  rw [messages_log, lines_append, List.append_assoc]
  rfl

/-- A failure is the last line of the messages. -/
theorem run_of_some {w' : World} {failure : Failure} (hroot : (find arguments).1 = .root)
    (h : runCommand .root w (find arguments).2 = (w', some failure)) :
    run w arguments =
      ({ w' with messages := w'.messages ++ failure.message ++ [0x0A] },
        exitStatus (some failure)) := by
  unfold run
  dsimp only
  rw [hroot, h]

theorem run_of_none {w' : World} (hroot : (find arguments).1 = .root)
    (h : runCommand .root w (find arguments).2 = (w', none)) : run w arguments = (w', 0) := by
  unfold run
  dsimp only
  rw [hroot, h]

/-- A command that is not begun exits with 1 and writes nothing. -/
theorem run_of_usageFails (hasks : AsksToTranslate arguments) (h : UsageFails w arguments) :
    (run w arguments).2 = 1 ∧ (run w arguments).1.output = w.output := by
  obtain ⟨w', failure, hrun, houtput, hstatus⟩ := runCommand_of_usageFails hasks h
  rw [run_of_some hasks.root hrun, exitStatus, hstatus]
  exact ⟨rfl, houtput⟩

/-- An input that fails leaves the statements before the failure, and the last line says why. -/
theorem run_of_inputFails (hasks : AsksToTranslate arguments) (hcanceled : w.canceled = false)
    (houtput : w.output = {}) (hbegins : Begins w arguments s name source)
    (h : InputFails s name source before line) :
    (run w arguments).2 = 2 ∧
      (run w arguments).1.output.taken.toList =
        rendering (s.translatorOptions name).withDefaults {} [] before ∧
      ∃ records, (run w arguments).1.messages =
        w.messages ++ Log.lines (leastLevel s) records ++ line ++ [0x0A] := by
  obtain ⟨records, hrun⟩ := runCommand_of_begins hasks hbegins
  obtain ⟨htaken, hfailure⟩ := translateInput_of_fails hbegins.name_ne_nil h
  rw [hcanceled, houtput, hfailure] at hrun
  rw [run_of_some hasks.root hrun]
  exact ⟨rfl, htaken, records, rfl⟩

/-- An input that does not fail is translated as a whole. -/
theorem run_of_not_inputFails (hasks : AsksToTranslate arguments) (hcanceled : w.canceled = false)
    (houtput : w.output = {}) (hbegins : Begins w arguments s name source)
    (h : ∀ before line, ¬InputFails s name source before line) :
    (run w arguments).2 = 0 ∧ ∃ content, source = .ok content ∧
      (run w arguments).1.output.taken.toList =
        rendering (s.translatorOptions name).withDefaults {} []
          (applied true (Parser.items (Lexer.tokens content))) ++ [0x0A] := by
  obtain ⟨records, hrun⟩ := runCommand_of_begins hasks hbegins
  obtain ⟨content, hcontent, hfailure, htaken⟩ := translateInput_of_not_fails h
  rw [hcanceled, houtput, hfailure] at hrun
  rw [run_of_none hasks.root hrun]
  exact ⟨rfl, content, hcontent, htaken⟩

/-- Whatever happens, one of three cases holds, each with its own exit status. -/
theorem run_cases (hasks : AsksToTranslate arguments) (hcanceled : w.canceled = false)
    (houtput : w.output = {}) :
    (UsageFails w arguments ∧ (run w arguments).2 = 1) ∨
    (∃ s name source before line, Begins w arguments s name source ∧
      InputFails s name source before line ∧ (run w arguments).2 = 2) ∨
    ∃ s name content, Begins w arguments s name (.ok content) ∧ (run w arguments).2 = 0 ∧
      (run w arguments).1.output.taken.toList =
        rendering (s.translatorOptions name).withDefaults {} []
          (applied true (Parser.items (Lexer.tokens content))) ++ [0x0A] := by
  rcases usageFails_or_begins w arguments with husage | ⟨s, name, source, hbegins⟩
  · exact .inl ⟨husage, (run_of_usageFails hasks husage).1⟩
  · by_cases h : ∃ before line, InputFails s name source before line
    · obtain ⟨before, line, hline⟩ := h
      have hstatus := (run_of_inputFails hasks hcanceled houtput hbegins hline).1
      exact .inr (.inl ⟨s, name, source, before, line, hbegins, hline, hstatus⟩)
    · obtain ⟨hstatus, content, rfl, hstdout⟩ := run_of_not_inputFails hasks hcanceled houtput
        hbegins fun before line hline => h ⟨before, line, hline⟩
      exact .inr (.inr ⟨s, name, content, hbegins, hstatus, hstdout⟩)

/-- With a standard output that takes everything, translating one input ends in one of three ways.
The exit status is 1 if the command cannot be begun, and then nothing is written.  It is 2 if the
input fails, and then the statements before the failure are written and the last line says why.
Otherwise it is 0, and everything is written with one more line break. -/
theorem run_root (w : World) (arguments : List Text) (hasks : AsksToTranslate arguments)
    (hcanceled : w.canceled = false) (houtput : w.output = {}) :
    let status := (run w arguments).2
    let stdout := (run w arguments).1.output.taken.toList
    (status = 1 ↔ UsageFails w arguments) ∧ (status = 1 → stdout = []) ∧
    (status = 2 ↔ ∃ s name source before line, Begins w arguments s name source ∧
      InputFails s name source before line) ∧
    (∀ s name source before line, Begins w arguments s name source →
      InputFails s name source before line →
      stdout = rendering (s.translatorOptions name).withDefaults {} [] before ∧
        ∃ records, (run w arguments).1.messages =
          w.messages ++ Log.lines (leastLevel s) records ++ line ++ [0x0A]) ∧
    (status ≠ 1 → status ≠ 2 → status = 0 ∧ ∃ s name content,
      Begins w arguments s name (.ok content) ∧
        stdout = rendering (s.translatorOptions name).withDefaults {} []
          (applied true (Parser.items (Lexer.tokens content))) ++ [0x0A]) := by
  intro status stdout
  have hcases := run_cases hasks hcanceled houtput
  -- the status tells which of the three cases it was
  have husage : status = 1 → UsageFails w arguments := by
    intro hone
    rcases hcases with ⟨h, -⟩ | ⟨_, _, _, _, _, -, -, htwo⟩ | ⟨_, _, _, -, hzero, -⟩
    · exact h
    · cases hone.symm.trans htwo
    · cases hone.symm.trans hzero
  refine ⟨⟨husage, fun h => (run_of_usageFails hasks h).1⟩, fun hone => ?_,
    ⟨fun htwo => ?_, ?_⟩, ?_, fun hone htwo => ?_⟩
  · show (run w arguments).1.output.taken.toList = []
    rw [(run_of_usageFails hasks (husage hone)).2, houtput]
  · rcases hcases with ⟨-, hone⟩ | ⟨s, name, source, before, line, hbegins, h, -⟩ |
      ⟨_, _, _, -, hzero, -⟩
    · cases htwo.symm.trans hone
    · exact ⟨s, name, source, before, line, hbegins, h⟩
    · cases htwo.symm.trans hzero
  · rintro ⟨s, name, source, before, line, hbegins, h⟩
    exact (run_of_inputFails hasks hcanceled houtput hbegins h).1
  · intro s name source before line hbegins h
    exact (run_of_inputFails hasks hcanceled houtput hbegins h).2
  · rcases hcases with ⟨-, h⟩ | ⟨_, _, _, _, _, -, -, h⟩ | ⟨s, name, content, hbegins, hzero, h⟩
    · exact absurd h hone
    · exact absurd h htwo
    · exact ⟨hzero, s, name, content, hbegins, h⟩

/-- A comment is written, and then a statement does not parse. -/
theorem run_root_stops_at_error :
    let w : World := { input := Text.utf8 "-- a\nSELECT;" }
    (run w []).2 = 2 ∧ (run w []).1.output.taken.toList = Text.utf8 "-- a\n" ∧
      ∃ logged, (run w []).1.messages = logged ++ Text.utf8
        "stdin:2.1: syntax error, unexpected IDENT \"SELECT\" at start of statement\n" := by
  intro w
  have hread : ParsedArguments.ofList (flagsOf .root) (find []).2 = .ok {} := rfl
  have hasks : AsksToTranslate [] := by
    refine ⟨rfl, by simp [hread], fun p hp => ?_⟩
    cases hread.symm.trans hp
    decide
  have hload : Settings.load w.files w.environment [] (ParsedArguments.layer {}) =
      .ok .initial := rfl
  -- what is read before the error
  let before : List Statement :=
    [⟨⟨1, 1, 0⟩, .comment (Text.utf8 "-- a")⟩, ⟨⟨1, 5, 4⟩, .newline⟩]
  have hitems : Parser.items (Lexer.tokens w.input) = before.map .statement ++
      .failure ⟨⟨2, 1, 5⟩, .unexpectedStart .identifier (Text.utf8 "SELECT")⟩ :: [] := by
    decide +kernel
  have hfails : InputFails .initial (Text.utf8 "stdin") (.ok w.input) before _ :=
    .invalid rfl hitems
  have hbegins : Begins w [] .initial (Text.utf8 "stdin") (.ok w.input) :=
    ⟨{}, hread, hload, .stdin⟩
  obtain ⟨-, -, hstatus, houtcome, -⟩ := run_root w [] hasks rfl rfl
  obtain ⟨hstdout, records, hmessages⟩ := houtcome _ _ _ _ _ hbegins hfails
  refine ⟨hstatus.2 ⟨_, _, _, _, _, hbegins, hfails⟩, ?_,
    w.messages ++ Log.lines (leastLevel .initial) records, ?_⟩
  · rw [hstdout]
    decide +kernel
  · rw [hmessages, List.append_assoc, List.append_right_inj]
    decide +kernel

end Command

end SqlStubs
