import Registrar.Bus
import Registrar.Hostname
import Registrar.Store.Call

/-!
# Passes

A pass is a program of store calls that may end in an error.
-/

namespace Registrar

inductive PassError.Cause where
  | store (source : StoreError)
  | naming (source : HostnameError)
  | events (source : BusError)
  /-- So many writes of an object in a row met a conflict. -/
  | retriesExhausted (key : Key) (attempts : Nat)
  | internal (message : String)
  deriving DecidableEq

structure PassError where
  cause : PassError.Cause
  context : Option String := none
  deriving DecidableEq

namespace PassError

def ofStore (source : StoreError) (context : Option String) : PassError :=
  ⟨.store source, context⟩

def ofHostname (source : HostnameError) : PassError :=
  ⟨.naming source, none⟩

def label (e : PassError) : String :=
  match e.cause with
  | .store _ => "Store"
  | .naming _ => "Naming"
  | .events _ => "Events"
  | .retriesExhausted .. => "ConflictRetriesExhausted"
  | .internal _ => "Internal"

def message (e : PassError) : String :=
  let context := Context.suffix e.context
  match e.cause with
  | .store source => s!"Store error{context}: {source.message}"
  | .naming source => s!"DNS naming error{context}: {source.message}"
  | .events source => s!"Watch subscription failed{context}: {source.message}"
  | .retriesExhausted key attempts =>
    s!"Gave up on {key} after {attempts} conflicting writes{context}"
  | .internal message => s!"Internal registration error{context}: {message}"

/-- What went wrong, and what that came from, outermost first. -/
def chain (e : PassError) : List String :=
  match e.cause with
  | .store source => e.message :: source.chain
  | .naming source => [e.message, source.message]
  | .events source => [e.message, source.message]
  | .retriesExhausted .. | .internal _ => [e.message]

end PassError

abbrev Pass (α : Type) := ExceptT PassError Program α

namespace Pass

variable {α β : Type}

/-- A call whose failure the pass looks at itself. -/
def ask (c : Call β) : Pass (Except StoreError β) :=
  ExceptT.lift (Program.ask c)

/-- A call whose failure ends the pass. -/
def require (c : Call β) (context : String) : Pass β := do
  match ← ask c with
  | .ok answer => return answer
  | .error e => throw (.ofStore e context)

def now : Pass Time :=
  ExceptT.lift Program.now

/-- A pass whose failure does not end the pass around it. -/
def attempt (p : Pass α) : Pass (Except PassError α) :=
  ExceptT.lift p.run

end Pass

end Registrar
