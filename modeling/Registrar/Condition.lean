import Registrar.Metadata

/-!
# Conditions

A condition tells one aspect of a registration's state and since when it has held.
-/

namespace Registrar

namespace Condition

inductive Status where
  | isTrue
  | isFalse
  | unknown
  deriving DecidableEq

/-- `accepted` tells whether a registration being deleted is still bound, `verified` whether its
owner has shown control of the hostname. -/
inductive Aspect where
  | accepted
  | verified
  deriving DecidableEq

def Status.ofBool (b : Bool) : Status :=
  if b then .isTrue else .isFalse

def Status.name : Status → String
  | .isTrue => "True"
  | .isFalse => "False"
  | .unknown => "Unknown"

def Status.ofName? (name : String) : Option Status :=
  [isTrue, isFalse, unknown].find? (·.name == name)

def Aspect.name : Aspect → String
  | .accepted => "Accepted"
  | .verified => "Verified"

def Aspect.ofName? (name : String) : Option Aspect :=
  [accepted, verified].find? (·.name == name)

end Condition

structure Condition where
  aspect : Condition.Aspect
  status : Condition.Status
  since : Option Time := none
  message : String := ""
  deriving DecidableEq

namespace Condition

def encode (c : Condition) : Json :=
  .record [
    ("lastTransitionTime", c.since.map (.string ·.render)),
    ("message", if c.message = "" then none else some (.string c.message)),
    ("status", some (.string c.status.name)),
    ("type", some (.string c.aspect.name))]

def decode? (value : Json) : Option Condition := do
  let r ← value.fields? ["type", "status", "lastTransitionTime", "message"]
  return {
    aspect := ← r.required "type" (fun v => v.choice? >>= Aspect.ofName?)
    status := ← r.required "status" (fun v => v.choice? >>= Status.ofName?)
    since := ← r.optional "lastTransitionTime" Metadata.time?
    message := ← r.defaulted "message" "" Json.string? }

def find? (conditions : List Condition) (aspect : Aspect) : Option Condition :=
  conditions.find? (·.aspect == aspect)

/-- Whether the first condition of an aspect is true. -/
def holds (conditions : List Condition) (aspect : Aspect) : Bool :=
  (find? conditions aspect).any (·.status == .isTrue)

/-- The time since which a condition has held: the one told before if its status has not changed. -/
def since? (previous : List Condition) (c : Condition) : Option Time :=
  ((find? previous c.aspect).filter (·.status == c.status)).bind (·.since)

/-- New conditions in place of the previous ones, those with a changed status stamped anew. -/
def merge (new previous : List Condition) (now : Time) : List Condition :=
  new.map (fun c => { c with since := some ((since? previous c).getD now) })

end Condition

end Registrar
