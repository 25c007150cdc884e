import Registrar.Domain
import Registrar.Pass
import Registrar.References

/-!
# Binding

A registration is bound to a hostname when the domain of that name lists it. Many passes write the
list at the same time, so each write starts from a fresh read and is tried again when the domain has
changed in between.
-/

namespace Registrar.Binding

variable {α : Type}

def domainKey (registration : Registration) : Key :=
  { name := registration.hostname }

/-- Repeats an attempt while it meets conflicts, `n` times at most. -/
def retrying (key : Key) (attempts : Nat) (attempt : Pass (Option α)) : Nat → Pass α
  | 0 => throw {
      cause := .retriesExhausted key attempts
      context := some "Updating domain registrations" }
  | n + 1 => do
    match ← attempt with
    | some a => return a
    | none => retrying key attempts attempt n

/-- Writes a domain with another list of registrations, nothing when it met a conflict. -/
def tryWrite (key : Key) (domain : Domain) (registrations : List Reference) :
    Pass (Option Domain) := do
  let changed := { domain with spec.registrations := registrations }
  match ← Pass.ask (.patch domain changed) with
  | .ok stored => return some stored
  | .error e =>
    if e.isConflict then return none
    else throw (.ofStore e s!"Patching domain {key}")

/-- Lists a reference on a domain, which is created if it is missing. -/
def tryRegister (key : Key) (reference : Reference) : Pass (Option Unit) := do
  match ← Pass.ask (.get Domain key) with
  | .error e =>
    if e.isNotFound then
      let new := { Domain.named key.name with spec.registrations := [reference] }
      let _ ← Pass.require (.create new) s!"Creating domain {key}"
      return some ()
    else throw (.ofStore e s!"Reading domain {key}")
  | .ok domain =>
    if References.contains domain.spec.registrations reference then return some ()
    else
      let stored ← tryWrite key domain (References.append domain.spec.registrations reference)
      return stored.map fun _ => ()

/-- Strikes a reference from a domain, and tells whether it is still listed. -/
def tryUnregister (key : Key) (reference : Reference) : Pass (Option Bool) := do
  match ← Pass.ask (.get Domain key) with
  | .error e =>
    if e.isNotFound then return some false
    else throw (.ofStore e s!"Reading domain {key}")
  | .ok domain =>
    if !References.contains domain.spec.registrations reference then return some false
    else
      let stored ← tryWrite key domain (References.remove domain.spec.registrations reference)
      return stored.map fun d => References.contains d.spec.registrations reference

/-- Binds a registration to its hostname, trying at least once. -/
def register (registration : Registration) (attempts : Nat) : Pass Unit :=
  let key := domainKey registration
  let attempts := max attempts 1
  retrying key attempts (tryRegister key (Resource.reference registration)) attempts

/-- Releases a registration from its hostname, and tells whether it is still bound. -/
def unregister (registration : Registration) (attempts : Nat) : Pass Bool :=
  let key := domainKey registration
  let attempts := max attempts 1
  retrying key attempts (tryUnregister key (Resource.reference registration)) attempts

end Registrar.Binding
