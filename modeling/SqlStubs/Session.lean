import SqlStubs.Translator

/-!
# Sessions

Several translators at work side by side, each known by a name.  Translators that are given the same
registry name see each other's functions; one without a registry name keeps its functions to itself.
-/

namespace SqlStubs

namespace Session

/-- A translator of a session. -/
structure Member where
  translator : Translator
  /-- The name of the registry it shares; empty if it shares none. -/
  registry : Text
  /-- How many bytes of its output have been reported. -/
  reported : Nat := 0
deriving Repr, DecidableEq

/-- What a translator is asked to do. -/
inductive Action where
  | none
  | translate (source : Text) (canceled : Bool) (broken : Bool)
  | insert (name type : Text)
  | lookup (name : Text)
  | flush
  | finish
deriving Repr, DecidableEq

/-- One step of a session. -/
structure Request where
  id : Text
  registry : Text
  options : TranslatorOptions
  action : Action
deriving Repr, DecidableEq

/-- What a step shows of itself. -/
inductive Outcome where
  | none
  | translated (failure : Option TranslatorFailure)
  | found (type : Text)
  /-- Whether output was lost, and the output since the last such step. -/
  | flushed (lost : Bool) (output : Text)
deriving Repr, DecidableEq

/-- What a step answers. -/
structure Reply where
  skipped : Nat
  functions : Nat
  outcome : Outcome
deriving Repr, DecidableEq

/-- What a source says that cannot be read to its end. -/
def sourceBroken : Text := Text.utf8 "source broken"

/-- Shows the output that has not been shown yet. -/
def Member.report (m : Member) : Member × Outcome :=
  let output := m.translator.output
  ({ m with reported := output.length }, .flushed m.translator.failed (output.drop m.reported))

/-- Lets a translator do what it is asked to.  A source that breaks off is not translated at all. -/
def Member.act (m : Member) : Action → Member × Outcome
  | .none => (m, .none)
  | .translate source canceled broken =>
    if broken then (m, .translated (some (.unreadable sourceBroken)))
    else
      let (t, failure) := Translator.translateUnless canceled m.translator source
      ({ m with translator := t }, .translated failure)
  | .insert name type =>
    ({ m with translator.types := m.translator.types.insert name type }, .none)
  | .lookup name => (m, .found (m.translator.types.get name))
  | .flush => report { m with translator := m.translator.flush }
  | .finish => report { m with translator := m.translator.finish }

end Session

/-- Translators at work side by side. -/
structure Session where
  members : Table Text Session.Member := {}
  /-- The registries that translators share, by name. -/
  registries : Table Text ReturnTypes := {}
deriving Repr, DecidableEq

namespace Session

/-- The translator that a step names, new if it has not been named before. -/
def member (s : Session) (r : Request) : Member :=
  (s.members.get? r.id).getD { translator := .new r.options {} {}, registry := r.registry }

/-- The translator with the functions that its registry knows. -/
def attach (s : Session) (m : Member) : Member :=
  if m.registry.isEmpty then m
  else { m with translator.types := (s.registries.get? m.registry).getD {} }

/-- The session with a translator and what it knows put back. -/
def detach (s : Session) (id : Text) (m : Member) : Session :=
  { members := s.members.insert id m
    registries :=
      if m.registry.isEmpty then s.registries
      else s.registries.insert m.registry m.translator.types }

/-- One step. -/
def step (s : Session) (r : Request) : Session × Reply :=
  let (m, outcome) := (s.attach (s.member r)).act r.action
  (s.detach r.id m, ⟨m.translator.skipped, m.translator.types.size, outcome⟩)

/-- The answers of a sequence of steps. -/
def run (s : Session) : List Request → List Reply
  | [] => []
  | r :: rest =>
    let (s, reply) := s.step r
    reply :: run s rest

end Session

end SqlStubs
