import Registrar.Domain
import Registrar.Proofs.Json.Records
import Registrar.Proofs.Time.RoundTrip

/-!
# The wire format

Every object is read back from what is written of it, part by part: a field that is left out stands
for its default. No double is ever written, so two objects are written the same just when they are
equal.
-/

namespace Registrar

open Json Json.Record

theorem Metadata.time?_render (t : Time) : Metadata.time? (.string t.render) = some t := by
  simp [Metadata.time?, string?, Time.parse?_render]

namespace Key

variable (k : Key)

/-- The fields of a key as they are written. -/
def fields : List (String × Option Json) := [
  ("name", some (.string k.name)),
  ("namespace", k.ns?.map .string)]

theorem decode?_encode : decode? k.encode = some k := by
  have hr : Json.fields? ["namespace", "name"] k.encode = some (present k.fields) :=
    fields?_record k.fields (by simp [wellNamed, distinct, fields])
  have hl : ∀ name, lookupEntry name (present k.fields) = given name k.fields :=
    fun name => lookupEntry_present name (by simp [distinct, fields])
  have hns : (present k.fields).optional "namespace" string? = some k.ns? :=
    optional_eq Json.string ((hl _).trans (by simp [given, fields])) (by simp) (by simp [string?])
  have hname : (present k.fields).required "name" string? = some k.name :=
    required_eq (.string k.name) ((hl _).trans (by simp [given, fields])) rfl
  simp [decode?, hr, hns, hname]

end Key

namespace Metadata

variable (m : Metadata)

/-- The fields of metadata as they are written. -/
def fields : List (String × Option Json) := [
  ("creationTimestamp", m.creationTime.map (.string ·.render)),
  ("deletionTimestamp", m.deletionTime.map (.string ·.render)),
  ("finalizers", if m.finalizers.isEmpty then none else some (.array (m.finalizers.map .string))),
  ("generation", some (.natural m.generation.toNat)),
  ("name", some (.string m.name)),
  ("namespace", m.ns?.map .string),
  ("resourceVersion", some (.natural m.resourceVersion.toNat)),
  ("uid", if m.uid = "" then none else some (.string m.uid))]

theorem decode?_encode : decode? m.encode = some m := by
  have hr : Json.fields? ["name", "namespace", "uid", "resourceVersion", "generation",
      "creationTimestamp", "deletionTimestamp", "finalizers"] m.encode = some (present m.fields) :=
    fields?_record m.fields (by simp [wellNamed, distinct, fields])
  have hl : ∀ name, lookupEntry name (present m.fields) = given name m.fields :=
    fun name => lookupEntry_present name (by simp [distinct, fields])
  have hname : (present m.fields).defaulted "name" "" string? = some m.name :=
    defaulted_eq (hl _) (by simp [given, fields]) (by simp [given, fields, string?])
  have hns : (present m.fields).optional "namespace" string? = some m.ns? :=
    optional_eq Json.string ((hl _).trans (by simp [given, fields])) (by simp) (by simp [string?])
  have huid : (present m.fields).defaulted "uid" "" string? = some m.uid :=
    defaulted_eq (hl _) (by simp [given, fields]) (by simp [given, fields, string?])
  have hversion : (present m.fields).defaulted "resourceVersion" 0 uint64?
      = some m.resourceVersion :=
    defaulted_eq (hl _) (by simp [given, fields]) (by simp [given, fields, uint64?_natural])
  have hgeneration : (present m.fields).defaulted "generation" 0 uint64? = some m.generation :=
    defaulted_eq (hl _) (by simp [given, fields]) (by simp [given, fields, uint64?_natural])
  have hcreated : (present m.fields).optional "creationTimestamp" time? = some m.creationTime :=
    optional_eq (fun t => .string t.render) ((hl _).trans (by simp [given, fields])) (by simp)
      (by simp [time?_render])
  have hdeleted : (present m.fields).optional "deletionTimestamp" time? = some m.deletionTime :=
    optional_eq (fun t => .string t.render) ((hl _).trans (by simp [given, fields])) (by simp)
      (by simp [time?_render])
  have hfinalizers : (present m.fields).defaulted "finalizers" [] (listOf? string?)
      = some m.finalizers :=
    defaulted_eq (hl _) (by simp [given, fields])
      (by simp [given, fields, listOf?_map string? .string (fun _ => rfl)])
  simp [decode?, hr, hname, hns, huid, hversion, hgeneration, hcreated, hdeleted, hfinalizers]

theorem integral_encode : m.encode.integral := by
  refine integral_record ?_
  simp [integral_array_map Json.string (fun _ => rfl)]

end Metadata

namespace Reference

variable (r : Reference)

def fields : List (String × Option Json) := [
  ("apiVersion", some (.string r.apiVersion)),
  ("kind", some (.string r.kind)),
  ("name", some (.string r.name)),
  ("namespace", r.ns?.map .string),
  ("uid", some (.string r.uid))]

theorem decode?_encode : decode? r.encode = some r := by
  have hr : Json.fields? ["apiVersion", "kind", "namespace", "name", "uid"] r.encode
      = some (present r.fields) :=
    fields?_record r.fields (by simp [wellNamed, distinct, fields])
  have hl : ∀ name, lookupEntry name (present r.fields) = given name r.fields :=
    fun name => lookupEntry_present name (by simp [distinct, fields])
  have hversion : (present r.fields).defaulted "apiVersion" "" string? = some r.apiVersion :=
    defaulted_eq (hl _) (by simp [given, fields]) (by simp [given, fields, string?])
  have hkind : (present r.fields).defaulted "kind" "" string? = some r.kind :=
    defaulted_eq (hl _) (by simp [given, fields]) (by simp [given, fields, string?])
  have hns : (present r.fields).optional "namespace" string? = some r.ns? :=
    optional_eq Json.string ((hl _).trans (by simp [given, fields])) (by simp) (by simp [string?])
  have hname : (present r.fields).defaulted "name" "" string? = some r.name :=
    defaulted_eq (hl _) (by simp [given, fields]) (by simp [given, fields, string?])
  have huid : (present r.fields).defaulted "uid" "" string? = some r.uid :=
    defaulted_eq (hl _) (by simp [given, fields]) (by simp [given, fields, string?])
  simp [decode?, hr, hversion, hkind, hns, hname, huid]

theorem integral_encode : r.encode.integral :=
  integral_record (by simp)

end Reference

namespace Condition

theorem Status.ofName?_name (s : Status) : Status.ofName? s.name = some s := by
  cases s <;> decide

theorem Aspect.ofName?_name (a : Aspect) : Aspect.ofName? a.name = some a := by
  cases a <;> decide

variable (c : Condition)

def fields : List (String × Option Json) := [
  ("lastTransitionTime", c.since.map (.string ·.render)),
  ("message", if c.message = "" then none else some (.string c.message)),
  ("status", some (.string c.status.name)),
  ("type", some (.string c.aspect.name))]

theorem decode?_encode : decode? c.encode = some c := by
  have hr : Json.fields? ["type", "status", "lastTransitionTime", "message"] c.encode
      = some (present c.fields) :=
    fields?_record c.fields (by simp [wellNamed, distinct, fields])
  have hl : ∀ name, lookupEntry name (present c.fields) = given name c.fields :=
    fun name => lookupEntry_present name (by simp [distinct, fields])
  have haspect : (present c.fields).required "type" (fun v => v.choice?.bind Aspect.ofName?)
      = some c.aspect :=
    required_eq (.string c.aspect.name) ((hl _).trans (by simp [given, fields]))
      (by simp [choice?, Aspect.ofName?_name])
  have hstatus : (present c.fields).required "status" (fun v => v.choice?.bind Status.ofName?)
      = some c.status :=
    required_eq (.string c.status.name) ((hl _).trans (by simp [given, fields]))
      (by simp [choice?, Status.ofName?_name])
  have hsince : (present c.fields).optional "lastTransitionTime" Metadata.time? = some c.since :=
    optional_eq (fun t => .string t.render) ((hl _).trans (by simp [given, fields])) (by simp)
      (by simp [Metadata.time?_render])
  have hmessage : (present c.fields).defaulted "message" "" string? = some c.message :=
    defaulted_eq (hl _) (by simp [given, fields]) (by simp [given, fields, string?])
  simp [decode?, hr, haspect, hstatus, hsince, hmessage]

theorem integral_encode : c.encode.integral :=
  integral_record (by simp)

end Condition

namespace DnsRecord

variable (r : DnsRecord)

def fields : List (String × Option Json) := [
  ("name", some (.string r.name)),
  ("type", some (.string r.type)),
  ("value", some (.string r.value))]

theorem decode?_encode : decode? r.encode = some r := by
  have hr : Json.fields? ["name", "type", "value"] r.encode = some (present r.fields) :=
    fields?_record r.fields (by simp [wellNamed, distinct, fields])
  have hl : ∀ name, lookupEntry name (present r.fields) = given name r.fields :=
    fun name => lookupEntry_present name (by simp [distinct, fields])
  have hname : (present r.fields).required "name" string? = some r.name :=
    required_eq (.string r.name) ((hl _).trans (by simp [given, fields])) rfl
  have htype : (present r.fields).required "type" string? = some r.type :=
    required_eq (.string r.type) ((hl _).trans (by simp [given, fields])) rfl
  have hvalue : (present r.fields).required "value" string? = some r.value :=
    required_eq (.string r.value) ((hl _).trans (by simp [given, fields])) rfl
  simp [decode?, hr, hname, htype, hvalue]

theorem integral_encode : r.encode.integral :=
  integral_record (by simp)

end DnsRecord

namespace Registration

theorem Spec.decode?_encode (s : Spec) : Spec.decode? s.encode = some s := by
  have hr : Json.fields? ["hostname"] s.encode
      = some (present [("hostname", s.hostname?.map .string)]) :=
    fields?_record _ (by simp [wellNamed, distinct])
  have hhostname : (present [("hostname", s.hostname?.map .string)]).optional "hostname" string?
      = some s.hostname? :=
    optional_eq Json.string ((lookupEntry_present _ (by simp [distinct])).trans (by simp [given]))
      (by simp) (by simp [string?])
  simp [decode?, hr, hhostname]

theorem Spec.integral_encode (s : Spec) : s.encode.integral :=
  integral_record (by simp)

namespace Status

variable (s : Status)

def fields : List (String × Option Json) := [
  ("conditions", some (.array (s.conditions.map Condition.encode))),
  ("dnsRecords", some (.array (s.dnsRecords.map DnsRecord.encode)))]

theorem decode?_encode : decode? s.encode = some s := by
  have hr : Json.fields? ["conditions", "dnsRecords"] s.encode = some (present s.fields) :=
    fields?_record s.fields (by simp [wellNamed, distinct, fields])
  have hl : ∀ name, lookupEntry name (present s.fields) = given name s.fields :=
    fun name => lookupEntry_present name (by simp [distinct, fields])
  have hconditions : (present s.fields).defaulted "conditions" [] (listOf? Condition.decode?)
      = some s.conditions :=
    defaulted_eq (hl _) (by simp [given, fields]) (by
      simp [given, fields, listOf?_map _ Condition.encode Condition.decode?_encode])
  have hrecords : (present s.fields).defaulted "dnsRecords" [] (listOf? DnsRecord.decode?)
      = some s.dnsRecords :=
    defaulted_eq (hl _) (by simp [given, fields]) (by
      simp [given, fields, listOf?_map _ DnsRecord.encode DnsRecord.decode?_encode])
  simp [decode?, hr, hconditions, hrecords]

theorem integral_encode : s.encode.integral :=
  integral_record (by
    simp [integral_array_map _ Condition.integral_encode,
      integral_array_map _ DnsRecord.integral_encode])

end Status

variable (r : Registration)

def fields : List (String × Option Json) := [
  ("metadata", some r.metadata.encode),
  ("spec", some r.spec.encode),
  ("status", some r.status.encode)]

/-- A registration is read back from what is written of it. -/
theorem decode?_encode : decode? r.encode = some r := by
  have hr : Json.fields? ["metadata", "spec", "status"] r.encode = some (present r.fields) :=
    fields?_record r.fields (by simp [wellNamed, distinct, fields])
  have hl : ∀ name, lookupEntry name (present r.fields) = given name r.fields :=
    fun name => lookupEntry_present name (by simp [distinct, fields])
  have hmetadata : (present r.fields).required "metadata" Metadata.decode? = some r.metadata :=
    required_eq r.metadata.encode ((hl _).trans (by simp [given, fields])) r.metadata.decode?_encode
  have hspec : (present r.fields).defaulted "spec" {} Spec.decode? = some r.spec :=
    defaulted_eq (hl _) (by simp [given, fields]) (by simp [given, fields, Spec.decode?_encode])
  have hstatus : (present r.fields).defaulted "status" {} Status.decode? = some r.status :=
    defaulted_eq (hl _) (by simp [given, fields]) (by simp [given, fields, Status.decode?_encode])
  simp [decode?, hr, hmetadata, hspec, hstatus]

theorem integral_encode : r.encode.integral :=
  integral_record (by
    simp [Metadata.integral_encode, Spec.integral_encode, Status.integral_encode])

end Registration

namespace Domain

namespace Spec

variable (s : Spec)

def fields : List (String × Option Json) := [
  ("registrations", some (.array (s.registrations.map Reference.encode))),
  ("verificationKey", s.verificationKey.map .string)]

theorem decode?_encode : decode? s.encode = some s := by
  have hr : Json.fields? ["registrations", "verificationKey"] s.encode = some (present s.fields) :=
    fields?_record s.fields (by simp [wellNamed, distinct, fields])
  have hl : ∀ name, lookupEntry name (present s.fields) = given name s.fields :=
    fun name => lookupEntry_present name (by simp [distinct, fields])
  have hregistrations : (present s.fields).defaulted "registrations" [] (listOf? Reference.decode?)
      = some s.registrations :=
    defaulted_eq (hl _) (by simp [given, fields]) (by
      simp [given, fields, listOf?_map _ Reference.encode Reference.decode?_encode])
  have hkey : (present s.fields).optional "verificationKey" string? = some s.verificationKey :=
    optional_eq Json.string ((hl _).trans (by simp [given, fields])) (by simp) (by simp [string?])
  simp [decode?, hr, hregistrations, hkey]

theorem integral_encode : s.encode.integral :=
  integral_record (by simp [integral_array_map _ Reference.integral_encode])

end Spec

namespace Status

variable (s : Status)

def records : List (String × Option Json) := [
  ("dnsRecords", some (.array (s.loadBalancerRecords.map DnsRecord.encode)))]

theorem decode?_encode : decode? s.encode = some s := by
  have hinner : loadBalancer? (.record s.records) = some s.loadBalancerRecords := by
    have hr : Json.fields? ["dnsRecords"] (.record s.records) = some (present s.records) :=
      fields?_record s.records (by simp [wellNamed, distinct, records])
    have hrecords : (present s.records).defaulted "dnsRecords" [] (listOf? DnsRecord.decode?)
        = some s.loadBalancerRecords :=
      defaulted_eq (lookupEntry_present _ (by simp [distinct, records])) (by simp [given, records])
        (by simp [given, records, listOf?_map _ DnsRecord.encode DnsRecord.decode?_encode])
    simp [loadBalancer?, hr, hrecords]
  have hr : Json.fields? ["loadBalancer"] s.encode
      = some (present [("loadBalancer", some (.record s.records))]) :=
    fields?_record _ (by simp [wellNamed, distinct])
  have houter : (present [("loadBalancer", some (.record s.records))]).defaulted "loadBalancer" []
      loadBalancer? = some s.loadBalancerRecords :=
    defaulted_eq (lookupEntry_present _ (by simp [distinct])) (by simp [given])
      (by simp [given, hinner])
  simp [decode?, hr, houter]

theorem integral_encode : s.encode.integral := by
  have hinner : (Json.record s.records).integral :=
    integral_record (by simp [records, integral_array_map _ DnsRecord.integral_encode])
  exact integral_record (by simpa [records] using hinner)

end Status

variable (d : Domain)

def fields : List (String × Option Json) := [
  ("metadata", some d.metadata.encode),
  ("spec", some d.spec.encode),
  ("status", some d.status.encode)]

/-- A domain is read back from what is written of it. -/
theorem decode?_encode : decode? d.encode = some d := by
  have hr : Json.fields? ["metadata", "spec", "status"] d.encode = some (present d.fields) :=
    fields?_record d.fields (by simp [wellNamed, distinct, fields])
  have hl : ∀ name, lookupEntry name (present d.fields) = given name d.fields :=
    fun name => lookupEntry_present name (by simp [distinct, fields])
  have hmetadata : (present d.fields).required "metadata" Metadata.decode? = some d.metadata :=
    required_eq d.metadata.encode ((hl _).trans (by simp [given, fields])) d.metadata.decode?_encode
  have hspec : (present d.fields).defaulted "spec" {} Spec.decode? = some d.spec :=
    defaulted_eq (hl _) (by simp [given, fields]) (by simp [given, fields, Spec.decode?_encode])
  have hstatus : (present d.fields).defaulted "status" {} Status.decode? = some d.status :=
    defaulted_eq (hl _) (by simp [given, fields]) (by simp [given, fields, Status.decode?_encode])
  simp [decode?, hr, hmetadata, hspec, hstatus]

theorem integral_encode : d.encode.integral :=
  integral_record (by
    simp [Metadata.integral_encode, Spec.integral_encode, Status.integral_encode])

end Domain

end Registrar
