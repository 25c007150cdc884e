import Registrar.Condition
import Registrar.Resource

/-!
# Registrations

A registration is an owner's request to bind a hostname. Its status tells the owner which DNS
records to publish and how far the request has come.
-/

namespace Registrar

structure DnsRecord where
  name : String
  type : String
  value : String
  deriving DecidableEq

namespace DnsRecord

def txt (name value : String) : DnsRecord :=
  ⟨name, "TXT", value⟩

def encode (r : DnsRecord) : Json :=
  .record [
    ("name", some (.string r.name)),
    ("type", some (.string r.type)),
    ("value", some (.string r.value))]

def decode? (value : Json) : Option DnsRecord := do
  let r ← value.fields? ["name", "type", "value"]
  return {
    name := ← r.required "name" Json.string?
    type := ← r.required "type" Json.string?
    value := ← r.required "value" Json.string? }

end DnsRecord

structure Registration.Spec where
  hostname? : Option String := none
  deriving DecidableEq, Inhabited

structure Registration.Status where
  conditions : List Condition := []
  dnsRecords : List DnsRecord := []
  deriving DecidableEq, Inhabited

structure Registration where
  metadata : Metadata
  spec : Registration.Spec := {}
  status : Registration.Status := {}
  deriving DecidableEq, Inhabited

namespace Registration

namespace Spec

def encode (s : Spec) : Json :=
  .record [("hostname", s.hostname?.map .string)]

def decode? (value : Json) : Option Spec := do
  let r ← value.fields? ["hostname"]
  return { hostname? := ← r.optional "hostname" Json.string? }

end Spec

namespace Status

def encode (s : Status) : Json :=
  .record [
    ("conditions", some (.array (s.conditions.map Condition.encode))),
    ("dnsRecords", some (.array (s.dnsRecords.map DnsRecord.encode)))]

def decode? (value : Json) : Option Status := do
  let r ← value.fields? ["conditions", "dnsRecords"]
  return {
    conditions := ← r.defaulted "conditions" [] (Json.listOf? Condition.decode?)
    dnsRecords := ← r.defaulted "dnsRecords" [] (Json.listOf? DnsRecord.decode?) }

end Status

/-- A registration that binds the hostname of its own name. -/
def named (ns name : String) : Registration where
  metadata := { name, ns? := some ns }

def withHostname (r : Registration) (hostname : String) : Registration :=
  { r with spec.hostname? := some hostname }

/-- The hostname asked for, the object's name when none is given. -/
def hostname (r : Registration) : String :=
  r.spec.hostname?.getD r.metadata.name

def encode (r : Registration) : Json :=
  .record [
    ("metadata", some r.metadata.encode),
    ("spec", some r.spec.encode),
    ("status", some r.status.encode)]

def decode? (value : Json) : Option Registration := do
  let r ← value.fields? ["metadata", "spec", "status"]
  return {
    metadata := ← r.required "metadata" Metadata.decode?
    spec := ← r.defaulted "spec" {} Spec.decode?
    status := ← r.defaulted "status" {} Status.decode? }

instance : Resource Registration where
  kind := "DomainRegistration"
  namespaced := true
  immutableSpec := true
  metadata := metadata
  withMetadata r metadata := { r with metadata }
  encode r := .ok r.encode
  decode value := (decode? value).elim (.error "not a registration") .ok

end Registration

end Registrar
