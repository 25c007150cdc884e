import Registrar.Binding
import Registrar.Finalizer
import Registrar.Settings
import Registrar.Text
import Registrar.Verification

/-!
# Reconciling a registration

One pass brings the cluster closer to what a registration asks for. While the registration lives, it
gets the finalizer, is bound to its hostname, and its status tells whether it is verified. While it
is being deleted, it is released from its hostname; then the finalizer comes off.
-/

namespace Registrar

/-- What a pass leaves to do. -/
inductive Outcome where
  | done
  /-- Another pass is to follow at once. -/
  | requeue
  deriving DecidableEq

def Outcome.name : Outcome → String
  | .done => "Done"
  | .requeue => "Requeue"

structure Reconciler where
  verifier : Verifier := ⟨Token.derived, Hostname.defaultRecordLabel⟩
  finalizer : String := ({} : Settings.Controller).finalizer
  attempts : Nat := ({} : Settings.Controller).attempts

namespace Reconciler

def ofSettings (s : Settings) : Reconciler where
  verifier := ⟨Token.derived, s.recordLabel⟩
  finalizer := s.controller.finalizer
  attempts := s.controller.attempts

/-- A condition of which an error left nothing known. -/
def unknown (aspect : Condition.Aspect) (e : PassError) : Condition where
  aspect := aspect
  status := .unknown
  message := e.message

/-- Whether a registration is verified, and the registration with the records to publish. -/
def verified (r : Reconciler) (registration : Registration) : Pass (Condition × Registration) := do
  match ← Pass.ask (.get Domain (Binding.domainKey registration)) with
  | .error e =>
    if e.isNotFound then return ({ aspect := .verified, status := .isFalse }, registration)
    else return (unknown .verified (.ofStore e none), registration)
  | .ok domain =>
    match r.verifier.verify domain registration with
    | .ok (verified, registration) =>
      return ({ aspect := .verified, status := .ofBool verified }, registration)
    | .error e => return (unknown .verified (.ofHostname e), registration)

/-- Whether a registration being deleted is still bound, and whether it may go. -/
def accepted (r : Reconciler) (registration : Registration) : Pass (Condition × Bool) := do
  match ← Pass.attempt (Binding.unregister registration r.attempts) with
  | .ok bound => return ({ aspect := .accepted, status := .ofBool bound }, !bound)
  | .error e => return (unknown .accepted e, false)

/-- Stores the status of a registration with a new condition in place of all previous ones. -/
def report (registration : Registration) (condition : Condition) (previous : List Condition) :
    Pass Registration := do
  let conditions := Condition.merge [condition] previous (← Pass.now)
  Pass.require (.updateStatus { registration with status.conditions := conditions })
    "Updating registration status"

def reconcileDeleting (r : Reconciler) (registration : Registration) : Pass Outcome := do
  let (condition, removable) ← r.accepted registration
  let stored ← report registration condition registration.status.conditions
  if removable then
    match ← ExceptT.lift (Finalizer.release stored r.finalizer) with
    | .ok _ => return .done
    | .error e => throw (.ofStore e "Removing finalizer")
  else return .done

def reconcileLive (r : Reconciler) (registration : Registration) : Pass Outcome := do
  match ← ExceptT.lift (Finalizer.ensure registration r.finalizer) with
  | .error e => throw (.ofStore e "Adding finalizer")
  | .ok (_, true) => return .requeue
  | .ok (marked, false) =>
    Binding.register marked r.attempts
    let (condition, told) ← r.verified marked
    let _ ← report told condition registration.status.conditions
    return .done

/-- A pass over the registration of a key. -/
def reconcile (r : Reconciler) (key : Key) : Pass Outcome := do
  match ← Pass.ask (.get Registration key) with
  | .error e =>
    if e.isNotFound then return .done
    else throw (.ofStore e "Reading registration")
  | .ok registration =>
    if registration.metadata.isDeleting then r.reconcileDeleting registration
    else r.reconcileLive registration

def summary (r : Reconciler) : String :=
  let finalizer := Text.Quoted.encode r.finalizer
  s!"Reconciler \x7b finalizer: {finalizer}, conflict_retries: {r.attempts}, .. \x7d"

/-- The settings that a reconciler has before any are made, under the name of its token scheme. -/
def builderSummary (scheme : String) : String :=
  let fresh : Reconciler := {}
  let label := Text.Quoted.encode fresh.verifier.label
  let finalizer := Text.Quoted.encode fresh.finalizer
  s!"ReconcilerBuilder \x7b state: WithStore, tokens: {scheme}, naming: PrefixedRecordNaming \x7b "
    ++ s!"prefix: {label} \x7d, finalizer: {finalizer}, conflict_retries: {fresh.attempts}"

end Reconciler

end Registrar
