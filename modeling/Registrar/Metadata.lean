import Registrar.Json.Record
import Registrar.Time.Reader

/-!
# Keys, metadata and references

A key names an object within its kind, the metadata carry what every object has, and a reference
points from one object to one incarnation of another.
-/

namespace Registrar

/-- The version of the wire format that references carry. -/
def apiVersion : String :=
  "hostbind.io/v1beta1"

/-- The name of an object within its kind. -/
structure Key where
  /-- The namespace, for objects that live in one. -/
  ns? : Option String := none
  name : String
  deriving DecidableEq, Inhabited

structure Metadata where
  name : String := ""
  ns? : Option String := none
  uid : String := ""
  resourceVersion : UInt64 := 0
  generation : UInt64 := 0
  creationTime : Option Time := none
  deletionTime : Option Time := none
  finalizers : List String := []
  deriving DecidableEq, Inhabited

/-- A pointer to one incarnation of an object. -/
structure Reference where
  apiVersion : String := ""
  kind : String := ""
  ns? : Option String := none
  name : String := ""
  uid : String := ""
  deriving DecidableEq, Inhabited

namespace Key

/-- Keys are in order of the namespace, none before any, and then of the name. -/
instance : Ord Key :=
  ⟨compareLex (compareOn Key.ns?) (compareOn Key.name)⟩

instance : Std.TransOrd Key :=
  inferInstanceAs (Std.TransCmp (compareLex (compareOn Key.ns?) (compareOn Key.name)))

instance : Std.LawfulEqOrd Key where
  compare_self {_} := @Std.ReflCmp.compare_self _
    (compareLex (compareOn Key.ns?) (compareOn Key.name)) _ _
  eq_of_compare {a b} h := by
    change (compare a.ns? b.ns?).then (compare a.name b.name) = .eq at h
    obtain ⟨hns, hname⟩ := Ordering.then_eq_eq.1 h
    cases a; cases b
    exact congr (congrArg Key.mk (Std.LawfulEqCmp.eq_of_compare hns))
      (Std.LawfulEqCmp.eq_of_compare hname)

/-- A namespaced key is shown with a slash behind the namespace, even an empty one. -/
def render (k : Key) : String :=
  match k.ns? with
  | some ns => ns ++ "/" ++ k.name
  | none => k.name

instance : ToString Key :=
  ⟨render⟩

def encode (k : Key) : Json :=
  .record [("name", some (.string k.name)), ("namespace", k.ns?.map .string)]

def decode? (value : Json) : Option Key := do
  let r ← value.fields? ["namespace", "name"]
  return {
    ns? := ← r.optional "namespace" Json.string?
    name := ← r.required "name" Json.string? }

end Key

namespace Metadata

def key (m : Metadata) : Key :=
  ⟨m.ns?, m.name⟩

def isDeleting (m : Metadata) : Bool :=
  m.deletionTime.isSome

def hasFinalizer (m : Metadata) (marker : String) : Bool :=
  m.finalizers.contains marker

/-- Puts a marker behind the others, unless it is there. -/
def addFinalizer (m : Metadata) (marker : String) : Metadata :=
  if m.hasFinalizer marker then m else { m with finalizers := m.finalizers ++ [marker] }

def removeFinalizer (m : Metadata) (marker : String) : Metadata :=
  { m with finalizers := m.finalizers.filter (· != marker) }

def encode (m : Metadata) : Json :=
  .record [
    ("creationTimestamp", m.creationTime.map (.string ·.render)),
    ("deletionTimestamp", m.deletionTime.map (.string ·.render)),
    ("finalizers", if m.finalizers.isEmpty then none else some (.array (m.finalizers.map .string))),
    ("generation", some (.natural m.generation.toNat)),
    ("name", some (.string m.name)),
    ("namespace", m.ns?.map .string),
    ("resourceVersion", some (.natural m.resourceVersion.toNat)),
    ("uid", if m.uid = "" then none else some (.string m.uid))]

def time? (value : Json) : Option Time :=
  value.string? >>= Time.parse?

def decode? (value : Json) : Option Metadata := do
  let r ← value.fields? ["name", "namespace", "uid", "resourceVersion", "generation",
    "creationTimestamp", "deletionTimestamp", "finalizers"]
  return {
    name := ← r.defaulted "name" "" Json.string?
    ns? := ← r.optional "namespace" Json.string?
    uid := ← r.defaulted "uid" "" Json.string?
    resourceVersion := ← r.defaulted "resourceVersion" 0 Json.uint64?
    generation := ← r.defaulted "generation" 0 Json.uint64?
    creationTime := ← r.optional "creationTimestamp" time?
    deletionTime := ← r.optional "deletionTimestamp" time?
    finalizers := ← r.defaulted "finalizers" [] (Json.listOf? Json.string?) }

end Metadata

namespace Reference

def key (r : Reference) : Key :=
  ⟨r.ns?, r.name⟩

/-- Two references point to the same incarnation whatever kind and version they name. -/
def sameObject (r s : Reference) : Bool :=
  r.ns? == s.ns? && r.name == s.name && r.uid == s.uid

def encode (r : Reference) : Json :=
  .record [
    ("apiVersion", some (.string r.apiVersion)),
    ("kind", some (.string r.kind)),
    ("name", some (.string r.name)),
    ("namespace", r.ns?.map .string),
    ("uid", some (.string r.uid))]

def decode? (value : Json) : Option Reference := do
  let r ← value.fields? ["apiVersion", "kind", "namespace", "name", "uid"]
  return {
    apiVersion := ← r.defaulted "apiVersion" "" Json.string?
    kind := ← r.defaulted "kind" "" Json.string?
    ns? := ← r.optional "namespace" Json.string?
    name := ← r.defaulted "name" "" Json.string?
    uid := ← r.defaulted "uid" "" Json.string? }

end Reference

end Registrar
