import Registrar.Proofs.Json.Retold
import Registrar.Proofs.Wire

/-!
# Faithful encodings

What is written of a value is read back as that value, so no two values are written the same. What
is read as a value is still read as that value when it is told anew, with the members of its records
in another order and unknown ones among them. Everything on the wire is written so
(`wire_faithful`).

The object that may stand for an enumerated value is no record: the name of the value is its only
member (`Json.choice?_object_iff`), so with another one beside it nothing is read.
-/

namespace Registrar

open Json Json.Record Json.Shape

/-- Nothing is lost between values and their encodings, which have records where the shape has. -/
structure Faithful {α : Type} (s : Shape) (encode : α → Json) (decode? : Json → Option α) :
    Prop where
  read_back (x : α) : decode? (encode x) = some x
  injective : Function.Injective encode
  retold {v v' : Json} {x : α} : decode? v = some x → s.Retold v v' → decode? v' = some x
  again {v : Json} {x : α} : decode? v = some x → decode? (encode x) = decode? v

theorem Faithful.of_reads {α : Type} {s : Shape} {encode : α → Json} {decode? : Json → Option α}
    (hback : ∀ x, decode? (encode x) = some x) (hs : s.Reads decode?) :
    Faithful s encode decode? where
  read_back := hback
  injective x y h := Option.some.inj ((hback x).symm.trans ((congrArg decode? h).trans (hback y)))
  retold hv h := (hs h).trans hv
  again {_ x} hv := (hback x).trans hv.symm

/-- An object stands for an enumerated value only if it has no other member. -/
theorem Json.choice?_object_iff {members : List (String × Json)} {name : String} :
    choice? (.object members) = some name ↔ members = [(name, .null)] := by
  constructor
  · intro h
    unfold choice? at h
    split at h
    next hs => cases hs
    next ho =>
      cases ho
      cases h
      rfl
    next => cases h
  · rintro rfl
    rfl

namespace Key

def shape : Shape :=
  .plain ["namespace", "name"]

theorem reads : shape.Reads decode? := by
  refine .plain (by simp [distinct]) (fun _ => rfl) fun h => ?_
  simp [required, Record.optional, h]

end Key

namespace Metadata

def shape : Shape :=
  .plain ["name", "namespace", "uid", "resourceVersion", "generation", "creationTimestamp",
    "deletionTimestamp", "finalizers"]

theorem reads : shape.Reads decode? := by
  refine .plain (by simp [distinct]) (fun _ => rfl) fun h => ?_
  simp [defaulted, Record.optional, h]

end Metadata

namespace Reference

def shape : Shape :=
  .plain ["apiVersion", "kind", "namespace", "name", "uid"]

theorem reads : shape.Reads decode? := by
  refine .plain (by simp [distinct]) (fun _ => rfl) fun h => ?_
  simp [defaulted, Record.optional, h]

end Reference

namespace DnsRecord

def shape : Shape :=
  .plain ["name", "type", "value"]

theorem reads : shape.Reads decode? := by
  refine .plain (by simp [distinct]) (fun _ => rfl) fun h => ?_
  simp [required, h]

end DnsRecord

namespace Condition

def shape : Shape :=
  .plain ["type", "status", "lastTransitionTime", "message"]

theorem reads : shape.Reads decode? := by
  refine .plain (by simp [distinct]) (fun _ => rfl) fun h => ?_
  simp [required, defaulted, Record.optional, h]

/-- A condition whose aspect is told by an object, with these members before its own. -/
def crowded (others : Record) : Json :=
  .object [("type", .object (others ++ [("Verified", .null)])), ("status", .string "True")]

/-- The object that stands for an enumerated value has no room for another member. -/
theorem crowded_aspect_unread :
    (Shape.record [("type", .plain ["Verified"]), ("status", .leaf)]).Retold (crowded [])
      (crowded [("note", .null)])
    ∧ decode? (crowded []) = some ⟨.verified, .isTrue, none, ""⟩
    ∧ decode? (crowded [("note", .null)]) = none :=
  ⟨.member [] [("status", .string "True")] List.mem_cons_self
    (.add .null [("Verified", .null)] (by decide)), by decide, by decide⟩

end Condition

/-- The shape of an object with its metadata. -/
def objectShape (spec status : Shape) : Shape :=
  .record [("metadata", Metadata.shape), ("spec", spec), ("status", status)]

namespace Registration

def Spec.shape : Shape :=
  .plain ["hostname"]

theorem Spec.reads : shape.Reads decode? := by
  refine .plain (by simp [distinct]) (fun _ => rfl) fun h => ?_
  simp [Record.optional, h]

def Status.shape : Shape :=
  .record [("conditions", .list Condition.shape), ("dnsRecords", .list DnsRecord.shape)]

theorem Status.reads : shape.Reads decode? := by
  refine .record (by simp [distinct]) (fun _ => rfl) fun h => ?_
  simp [h.defaulted "conditions" (by simp) Condition.reads.list,
    h.defaulted "dnsRecords" (by simp) DnsRecord.reads.list]

def shape : Shape :=
  objectShape Spec.shape Status.shape

theorem reads : shape.Reads decode? := by
  refine .record (by simp [distinct]) (fun _ => rfl) fun h => ?_
  simp [h.required "metadata" (by simp) Metadata.reads, h.defaulted "spec" (by simp) Spec.reads,
    h.defaulted "status" (by simp) Status.reads]

end Registration

namespace Domain

def Spec.shape : Shape :=
  .record [("registrations", .list Reference.shape), ("verificationKey", .leaf)]

theorem Spec.reads : shape.Reads decode? := by
  refine .record (by simp [distinct]) (fun _ => rfl) fun h => ?_
  simp [h.defaulted "registrations" (by simp) Reference.reads.list, Record.optional,
    h.lookup_leaf "verificationKey" (by simp)]

def Status.loadBalancerShape : Shape :=
  .record [("dnsRecords", .list DnsRecord.shape)]

theorem Status.loadBalancer_reads : loadBalancerShape.Reads loadBalancer? := by
  refine .record (by simp [distinct]) (fun _ => rfl) fun h => ?_
  exact h.defaulted "dnsRecords" (by simp) DnsRecord.reads.list []

def Status.shape : Shape :=
  .record [("loadBalancer", loadBalancerShape)]

theorem Status.reads : shape.Reads decode? := by
  refine .record (by simp [distinct]) (fun _ => rfl) fun h => ?_
  simp [h.defaulted "loadBalancer" (by simp) loadBalancer_reads]

def shape : Shape :=
  objectShape Spec.shape Status.shape

theorem reads : shape.Reads decode? := by
  refine .record (by simp [distinct]) (fun _ => rfl) fun h => ?_
  simp [h.required "metadata" (by simp) Metadata.reads, h.defaulted "spec" (by simp) Spec.reads,
    h.defaulted "status" (by simp) Status.reads]

end Domain

/-- Nothing is lost on the wire: not of the parts, and not of the objects made of them. -/
theorem wire_faithful :
    Faithful Metadata.shape Metadata.encode Metadata.decode?
    ∧ Faithful Key.shape Key.encode Key.decode?
    ∧ Faithful Reference.shape Reference.encode Reference.decode?
    ∧ Faithful Condition.shape Condition.encode Condition.decode?
    ∧ Faithful DnsRecord.shape DnsRecord.encode DnsRecord.decode?
    ∧ Faithful Domain.shape Domain.encode Domain.decode?
    ∧ Faithful Registration.shape Registration.encode Registration.decode? :=
  ⟨.of_reads Metadata.decode?_encode Metadata.reads, .of_reads Key.decode?_encode Key.reads,
    .of_reads Reference.decode?_encode Reference.reads,
    .of_reads Condition.decode?_encode Condition.reads,
    .of_reads DnsRecord.decode?_encode DnsRecord.reads,
    .of_reads Domain.decode?_encode Domain.reads,
    .of_reads Registration.decode?_encode Registration.reads⟩

end Registrar
