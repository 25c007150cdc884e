import Registrar.Proofs.Wire
import Registrar.Store

/-!
# The parts of an object

An object is its metadata, its spec and its status, and is read back from what is written of it. Two
objects are written the same just when they are equal (`beq_json_iff`), the member `spec` just when
their specs are (`beq_spec_iff`), and a write carries the member `status` over just as it would the
status itself (`carry_json`). So what the store does to JSON it does to objects.
-/

namespace Registrar

open Json

/-- The spec and the status of the objects of a kind, and how an object is written. -/
class Parts (R : Type) [Resource R] where
  Spec : Type
  Status : Type
  spec : R → Spec
  status : R → Status
  withStatus : R → Status → R
  json : R → Json
  metadata_withMetadata : ∀ (o : R) m, Resource.metadata (Resource.withMetadata o m) = m
  spec_withMetadata : ∀ (o : R) m, spec (Resource.withMetadata o m) = spec o
  status_withMetadata : ∀ (o : R) m, status (Resource.withMetadata o m) = status o
  metadata_withStatus : ∀ (o : R) t, Resource.metadata (withStatus o t) = Resource.metadata o
  spec_withStatus : ∀ (o : R) t, spec (withStatus o t) = spec o
  status_withStatus : ∀ (o : R) t, status (withStatus o t) = t
  ext : ∀ {o p : R}, Resource.metadata o = Resource.metadata p → spec o = spec p →
    status o = status p → o = p
  encode_eq : ∀ o : R, Resource.encode o = .ok (json o)
  decode_json : ∀ o : R, Resource.decode (json o) = .ok o
  beq_json_iff : ∀ o p : R, (json o == json p) = true ↔ o = p
  beq_spec_iff : ∀ o p : R,
    ((json o).member? "spec" == (json p).member? "spec") = true ↔ spec o = spec p
  carry_json : ∀ o p : R, Store.carryStatus (json o) (json p) = json (withStatus o (status p))

namespace Parts

attribute [simp] metadata_withMetadata spec_withMetadata status_withMetadata metadata_withStatus
  spec_withStatus status_withStatus

section Members

/-- What is written of an object with these parts. -/
def written (metadata spec status : Json) : Json :=
  .record [("metadata", some metadata), ("spec", some spec), ("status", some status)]

variable {m n s t u v : Json}

theorem member?_written {name : String} : (written m s u).member? name
    = given name [("metadata", some m), ("spec", some s), ("status", some u)] :=
  member?_record (by simp [distinct])

theorem carryStatus_written :
    Store.carryStatus (written m s u) (written n t v) = written m s v := by
  rw [Store.carryStatus, member?_written]
  simp [given, written, record, setMember, insertEntry,
    show compare "status" "metadata" = .gt by decide,
    show compare "status" "spec" = .gt by decide]

theorem beq_member_spec (hs : s.integral) :
    ((written m s u).member? "spec" == (written n t v).member? "spec") = true ↔ s = t := by
  rw [member?_written, member?_written]
  simpa [given] using beq_iff_eq_of_integral hs

theorem eq_of_encode_eq {α : Type} {encode : α → Json} {decode? : Json → Option α}
    (h : ∀ a, decode? (encode a) = some a) {a b : α} (hab : encode a = encode b) : a = b := by
  have := h a
  rw [hab, h b] at this
  exact (Option.some.inj this).symm

end Members

instance : Parts Registration where
  Spec := Registration.Spec
  Status := Registration.Status
  spec := Registration.spec
  status := Registration.status
  withStatus r status := { r with status }
  json := Registration.encode
  metadata_withMetadata _ _ := rfl
  spec_withMetadata _ _ := rfl
  status_withMetadata _ _ := rfl
  metadata_withStatus _ _ := rfl
  spec_withStatus _ _ := rfl
  status_withStatus _ _ := rfl
  ext {o p} hm hs ht := by
    cases o
    cases p
    congr
  encode_eq _ := rfl
  decode_json r := by simp [Resource.decode, Registration.decode?_encode]
  beq_json_iff r q := by
    rw [beq_iff_eq_of_integral r.integral_encode]
    exact ⟨eq_of_encode_eq Registration.decode?_encode, congrArg _⟩
  beq_spec_iff r q :=
    (beq_member_spec r.spec.integral_encode).trans
      ⟨eq_of_encode_eq Registration.Spec.decode?_encode, congrArg _⟩
  carry_json _ _ := carryStatus_written

instance : Parts Domain where
  Spec := Domain.Spec
  Status := Domain.Status
  spec := Domain.spec
  status := Domain.status
  withStatus d status := { d with status }
  json := Domain.encode
  metadata_withMetadata _ _ := rfl
  spec_withMetadata _ _ := rfl
  status_withMetadata _ _ := rfl
  metadata_withStatus _ _ := rfl
  spec_withStatus _ _ := rfl
  status_withStatus _ _ := rfl
  ext {o p} hm hs ht := by
    cases o
    cases p
    congr
  encode_eq _ := rfl
  decode_json d := by simp [Resource.decode, Domain.decode?_encode]
  beq_json_iff d e := by
    rw [beq_iff_eq_of_integral d.integral_encode]
    exact ⟨eq_of_encode_eq Domain.decode?_encode, congrArg _⟩
  beq_spec_iff d e :=
    (beq_member_spec d.spec.integral_encode).trans
      ⟨eq_of_encode_eq Domain.Spec.decode?_encode, congrArg _⟩
  carry_json _ _ := carryStatus_written

end Parts

end Registrar
