import Registrar.Metadata
import Registrar.Text

/-!
# Store errors

Why a store refused a call.
-/

namespace Registrar

inductive StoreError.Cause where
  | notFound (kind : String) (key : Key)
  /-- The write was made from a version that is no longer the stored one. -/
  | conflict (kind : String) (key : Key) (expected found : UInt64)
  | alreadyExists (kind : String) (key : Key)
  | immutable (kind : String) (key : Key) (field : String)
  /-- An object could not be written as JSON or read from it. -/
  | serialization (reason : String)
  | internal (message : String)
  deriving DecidableEq

structure StoreError where
  cause : StoreError.Cause
  context : Option String := none
  deriving DecidableEq

namespace StoreError

def isNotFound (e : StoreError) : Bool :=
  match e.cause with
  | .notFound .. => true
  | _ => false

def isConflict (e : StoreError) : Bool :=
  match e.cause with
  | .conflict .. => true
  | _ => false

def label (e : StoreError) : String :=
  match e.cause with
  | .notFound .. => "NotFound"
  | .conflict .. => "Conflict"
  | .alreadyExists .. => "AlreadyExists"
  | .immutable .. => "Immutable"
  | .serialization .. => "Serialization"
  | .internal .. => "Internal"

def message (e : StoreError) : String :=
  let context := Context.suffix e.context
  match e.cause with
  | .notFound kind key => s!"{kind} '{key}' not found{context}"
  | .conflict kind key expected found =>
    s!"Conflict on {kind} '{key}'{context}: expected resource version {expected}, found {found}"
  | .alreadyExists kind key => s!"{kind} '{key}' already exists{context}"
  | .immutable kind key field => s!"{kind} '{key}' cannot change its {field}{context}"
  | .serialization reason => s!"Serialization failure{context}: {reason}"
  | .internal message => s!"Internal store error{context}: {message}"

/-- What went wrong, and what that came from, outermost first. -/
def chain (e : StoreError) : List String :=
  match e.cause with
  | .serialization reason => [e.message, reason]
  | _ => [e.message]

end StoreError

end Registrar
