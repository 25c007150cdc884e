import Registrar.Text

/-!
# Logging errors

Why a logger could not be set up.
-/

namespace Registrar

inductive LogError.Cause where
  /-- Another logger takes all entries already. -/
  | taken
  | internal (message : String)
  | invalid (message : String)
  deriving DecidableEq

structure LogError where
  cause : LogError.Cause
  context : Option String := none
  deriving DecidableEq

namespace LogError

def label (e : LogError) : String :=
  match e.cause with
  | .taken => "Subscriber"
  | .internal _ => "Internal"
  | .invalid _ => "InvalidConfiguration"

def message (e : LogError) : String :=
  let context := Context.suffix e.context
  match e.cause with
  | .taken =>
    s!"Tracing subscriber error{context}: a global default trace dispatcher has already been set"
  | .internal message => s!"Internal logger error{context}: {message}"
  | .invalid message => s!"Invalid logger configuration{context}: {message}"

end LogError

end Registrar
