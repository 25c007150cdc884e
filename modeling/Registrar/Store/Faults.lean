import Registrar.Store.Call

/-!
# Faults

An access whose calls fail, or meet a store that changes just before they come, at chosen moments.
-/

namespace Registrar

/-- What happens to calls of a method about a kind, after `skip` of them, `times` times. The script
runs first. Then the call fails, if an error is given, or does nothing, if it is ignored. -/
structure Fault (ρ : Type) where
  method : Call.Method
  kind : String
  skip : Nat
  times : Nat
  script : ρ
  error : Option (String → Key → StoreError)
  ignored : Bool

/-- The faults to come, and the calls that were made. -/
structure Faults (ρ : Type) where
  pending : List (Fault ρ)
  calls : List String

namespace Fault

variable {ρ : Type}

/-- The first fault that meets a call, and what is left of all of them. Faults that were to be
skipped on the way lose a skip. -/
def next (method : Call.Method) (kind : String) : List (Fault ρ) → Option (Fault ρ) × List (Fault ρ)
  | [] => (none, [])
  | f :: rest =>
    if f.method = method ∧ f.kind = kind ∧ 0 < f.times then
      if f.skip = 0 then (some f, { f with times := f.times - 1 } :: rest)
      else
        let (found, rest) := next method kind rest
        (found, { f with skip := f.skip - 1 } :: rest)
    else
      let (found, rest) := next method kind rest
      (found, f :: rest)

end Fault

namespace Faults

variable {ρ σ β : Type}

def none : Faults ρ :=
  ⟨[], []⟩

/-- Answers a call through the faults in front of an access. -/
def perform (access : Access σ) (runScript : ρ → σ → σ) (c : Call β) (s : σ × Faults ρ) :
    Except StoreError β × σ × Faults ρ :=
  let (state, faults) := s
  let (found, pending) := Fault.next c.method c.kind faults.pending
  let (answer, state) := match found with
    | .none => access.perform c state
    | .some f =>
      let state := runScript f.script state
      match f.error with
      | .some error => (.error (error c.kind c.key), state)
      | .none => access.perform (if f.ignored then c.idle else c) state
  let result := match answer with
    | .ok _ => "ok"
    | .error e => e.label
  (answer, state, ⟨pending, faults.calls ++ [s!"{c.method.name} {c.kind} {c.key} {result}"]⟩)

/-- An access with faults in front. -/
def before (access : Access σ) (runScript : ρ → σ → σ) : Access (σ × Faults ρ) where
  perform := perform access runScript
  now s := access.now s.1

end Faults

end Registrar
