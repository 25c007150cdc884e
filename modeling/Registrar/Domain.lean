import Registrar.Registration

/-!
# Domains

A domain is the record of a hostname, which is its name: the registrations bound to the hostname in
the order they came, the key for verification tokens, and the records of its load balancer.
-/

namespace Registrar

structure Domain.Spec where
  registrations : List Reference := []
  /-- Without a key no registration of the domain is verified. -/
  verificationKey : Option String := none
  deriving DecidableEq, Inhabited

structure Domain.Status where
  loadBalancerRecords : List DnsRecord := []
  deriving DecidableEq, Inhabited

structure Domain where
  metadata : Metadata
  spec : Domain.Spec := {}
  status : Domain.Status := {}
  deriving DecidableEq, Inhabited

namespace Domain

namespace Spec

def encode (s : Spec) : Json :=
  .record [
    ("registrations", some (.array (s.registrations.map Reference.encode))),
    ("verificationKey", s.verificationKey.map .string)]

def decode? (value : Json) : Option Spec := do
  let r ← value.fields? ["registrations", "verificationKey"]
  return {
    registrations := ← r.defaulted "registrations" [] (Json.listOf? Reference.decode?)
    verificationKey := ← r.optional "verificationKey" Json.string? }

end Spec

namespace Status

def encode (s : Status) : Json :=
  .record [("loadBalancer", some (.record [
    ("dnsRecords", some (.array (s.loadBalancerRecords.map DnsRecord.encode)))]))]

def loadBalancer? (value : Json) : Option (List DnsRecord) := do
  let r ← value.fields? ["dnsRecords"]
  r.defaulted "dnsRecords" [] (Json.listOf? DnsRecord.decode?)

def decode? (value : Json) : Option Status := do
  let r ← value.fields? ["loadBalancer"]
  return { loadBalancerRecords := ← r.defaulted "loadBalancer" [] loadBalancer? }

end Status

def named (hostname : String) : Domain where
  metadata := { name := hostname }

def hostname (d : Domain) : String :=
  d.metadata.name

def registrationKeys (d : Domain) : List Key :=
  d.spec.registrations.map Reference.key

def encode (d : Domain) : Json :=
  .record [
    ("metadata", some d.metadata.encode),
    ("spec", some d.spec.encode),
    ("status", some d.status.encode)]

def decode? (value : Json) : Option Domain := do
  let r ← value.fields? ["metadata", "spec", "status"]
  return {
    metadata := ← r.required "metadata" Metadata.decode?
    spec := ← r.defaulted "spec" {} Spec.decode?
    status := ← r.defaulted "status" {} Status.decode? }

instance : Resource Domain where
  kind := "Domain"
  namespaced := false
  immutableSpec := false
  metadata := metadata
  withMetadata d metadata := { d with metadata }
  encode d := .ok d.encode
  decode value := (decode? value).elim (.error "not a domain") .ok

end Domain

end Registrar
