import SqlStubs.Text

/-!
# Failures of a command

A failure has a message and may have an exit status of its own.  Without one it counts as wrong
usage.  If a failure that has a status is given another, the later one counts.
-/

namespace SqlStubs.Command

/-- Why a command fails. -/
structure Failure where
  message : Text
  status : Option Int := none
deriving Repr, DecidableEq

/-- The status of wrong usage: flags, arguments, settings, or an input that cannot be opened. -/
def usageStatus : Int := 1

/-- The status of an input that cannot be translated. -/
def inputStatus : Int := 2

namespace Failure

/-- The failure with a status. -/
def withStatus (f : Failure) (status : Int) : Failure := { f with status := some status }

/-- The failure as wrong usage. -/
def asUsage (f : Failure) : Failure := f.withStatus usageStatus

/-- The failure with a text before its message. -/
def within (f : Failure) (context : Text) : Failure :=
  { f with message := context ++ Text.utf8 ": " ++ f.message }

/-- A failure of usage. -/
def usage (message : Text) : Failure := ⟨message, some usageStatus⟩

/-- A failure to translate an input. -/
def input (message : Text) : Failure := ⟨message, some inputStatus⟩

end Failure

/-- The exit status of a command that failed, or did not. -/
def exitStatus : Option Failure → Int
  | none => 0
  | some f => f.status.getD usageStatus

end SqlStubs.Command
