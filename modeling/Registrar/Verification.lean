import Registrar.Domain
import Registrar.Hostname
import Registrar.Token

/-!
# Verification

An owner proves control of a hostname by publishing a token in its DNS. The registration tells the
records to publish: those of the domain's load balancer, and the one with the token.
-/

namespace Registrar

/-- How tokens are derived, and the label under which they are published. -/
structure Verifier where
  token : TokenScheme
  label : String

namespace Verifier

/-- Whether a registration counts as verified for a domain, and the registration with the records to
publish. It stays verified once it is; without a key there is nothing to verify or to publish. -/
def verify (v : Verifier) (domain : Domain) (registration : Registration) :
    Except HostnameError (Bool × Registration) :=
  match domain.spec.verificationKey with
  | none => .ok (false, registration)
  | some key => do
    let name ← Hostname.recordName v.label domain.hostname
    let txt := DnsRecord.txt name (v.token key registration.metadata.uid)
    let records := domain.status.loadBalancerRecords ++ [txt]
    return (Condition.holds registration.status.conditions .verified,
      { registration with status.dnsRecords := records })

end Verifier

end Registrar
