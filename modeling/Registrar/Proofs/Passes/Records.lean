import Registrar.Proofs.Passes.Footprint
import Registrar.Proofs.Passes.Orders

/-!
# Records to publish

A domain with a key, and with a hostname of which a record name can be formed, says which records a
registration is to publish. Of two stores that differ in what a registration publishes, a calm pass
makes two in which it publishes the same, what its domain says. Where the domain says nothing the
pass leaves the records as they are, each store its own (`twins_publish`).
-/

namespace Registrar

open Resource Parts Store

namespace Verifier

variable {v : Verifier} {d : Domain} {uid : String}

/-- The records that a domain has a registration of a uid publish, if it has it publish any. -/
def records? (v : Verifier) (d : Domain) (uid : String) : Option (List DnsRecord) :=
  match d.spec.verificationKey, Hostname.recordName v.label d.hostname with
  | some key, .ok name => some (d.status.loadBalancerRecords ++ [.txt name (v.token key uid)])
  | _, _ => none

theorem records?_of_keyless (v : Verifier) (uid : String) (h : d.spec.verificationKey = none) :
    v.records? d uid = none := by
  rw [records?, h]

theorem records?_of_named {key name : String} (hkey : d.spec.verificationKey = some key)
    (hname : Hostname.recordName v.label d.hostname = .ok name) :
    v.records? d uid = some (d.status.loadBalancerRecords ++ [.txt name (v.token key uid)]) := by
  rw [records?, hkey, hname]

theorem records?_of_unnamed {e : HostnameError}
    (hname : Hostname.recordName v.label d.hostname = .error e) : v.records? d uid = none := by
  rw [records?, hname]
  split
  · rename_i h
    cases h
  · rfl

end Verifier

namespace Reconciler

/-- The records that the domain of a registration has it publish, if there is one and it does. -/
def due? (rec : Reconciler) (reg : Registration) (s : Store) : Option (List DnsRecord) :=
  (s.find? Domain (Binding.domainKey reg)).bind (rec.verifier.records? · reg.metadata.uid)

/-- A read domain that says what to publish replaces what was published. -/
theorem dnsRecords_liveStatus (rec : Reconciler) (reg : Registration) (now : Time) (d : Domain) :
    (rec.liveStatus reg now (.ok d)).dnsRecords
      = (rec.verifier.records? d reg.metadata.uid).getD reg.status.dnsRecords := by
  change (rec.verdict reg (.ok d)).2.status.dnsRecords = _
  rcases hkey : d.spec.verificationKey with _ | key
  · rw [verdict_of_keyless rec reg hkey, Verifier.records?_of_keyless _ _ hkey]
    rfl
  · rcases hname : Hostname.recordName rec.verifier.label d.hostname with e | name
    · rw [verdict_of_unnamed rec reg hkey hname, Verifier.records?_of_unnamed hname]
      rfl
    · rw [verdict_of_named rec reg hkey hname, Verifier.records?_of_named hkey hname]
      rfl

theorem status_toldOf (reg : Registration) (status : Registration.Status) :
    (toldOf reg status).status = status := by
  rw [toldOf]
  split
  · rename_i hsame
    exact hsame.symm
  · rfl

end Reconciler

/-- The records that the registration of a key publishes. -/
def Store.published? (s : Store) (key : Key) : Option (List DnsRecord) :=
  (s.find? Registration key).map (·.status.dnsRecords)

/-- One store is another but for the records that a registration publishes. -/
structure Store.Twin (s t : Store) (reg : Registration) (records : List DnsRecord) : Prop where
  found : s.find? Registration (Resource.key reg) = some reg
  retold : t.find? Registration (Resource.key reg)
    = some { reg with status.dnsRecords := records }
  elsewhere : ∀ slot, slot ≠ Store.slot Registration (Resource.key reg) →
    t.objects.get? slot = s.objects.get? slot
  issued_eq : t.issued = s.issued

namespace Store

variable {s : Store} {slot : Slot}

theorem get?_updateStatus (hs : s.Sound) (o : Registration) (now : Time)
    (hne : slot ≠ Store.slot Registration (Resource.key o)) :
    (s.after [(.updateStatus .registration o, now)]).objects.get? slot = s.objects.get? slot :=
  (wrote_updateStatus hs.registration o).get?_of_ne hs.registration
    (fun _ hother => find?_updateStatus_of_ne hs.registration hother) hne

theorem issued_updateStatus (hs : s.Sound) (o : Registration) (now : Time) :
    (s.after [(.updateStatus .registration o, now)]).issued = s.issued := by
  change (s.updateStatus o).store.issued = s.issued
  obtain ⟨e, hp⟩ | ⟨current, -, ⟨-, hp⟩ | ⟨next, -, -, hp⟩⟩ :=
    updateStatus_cases hs.registration o <;> rw [hp]
  rfl

end Store

namespace Reconciler

variable {rec : Reconciler} {reg : Registration} {s t : Store} {v : Visit}
  {records : List DnsRecord}

/-- What a calm visit of a live registration with the finalizer makes of it: a domain that the visit
creates has no key, and so says nothing. -/
theorem dnsRecords_turned (rec : Reconciler) (now : Time)
    (hlive : reg.metadata.isDeleting = false)
    (hmarked : reg.metadata.hasFinalizer rec.finalizer = true) (o : Option Domain) :
    ∃ told, rec.turned now reg (rec.shaped now reg (o.map Domain.outline)) = some told ∧
      told.status.dnsRecords
        = (o.bind (rec.verifier.records? · reg.metadata.uid)).getD reg.status.dnsRecords := by
  have hwanted : rec.wanted? reg = some true := by simp [wanted?, hlive, hmarked]
  have hturned : ∀ o : Outline, rec.turned now reg (some (o.arranged true (Resource.reference reg)))
      = some (toldOf reg (rec.liveStatus reg now (.ok o.core))) := by
    intro o
    have hface : (some (o.arranged true (Resource.reference reg))).map Outline.face
        = (some o).map Outline.face := congrArg some Outline.face_arranged
    rw [turned_congr hface]
    simp only [turned, hwanted, Option.elim_some]
  simp only [shaped, hwanted, Option.elim_some]
  rcases o with _ | d
  · by_cases hname : Text.trim reg.hostname = ""
    · refine ⟨reg, ?_, rfl⟩
      rw [Option.map_none, Outline.placed_of_blank hname]
      simp only [turned, hwanted, Option.elim_none]
    · refine ⟨toldOf reg (rec.liveStatus reg now (.ok (Outline.unborn reg.hostname now).core)),
        ?_, ?_⟩
      · rw [Option.map_none, Outline.placed_of_named hname]
        exact hturned _
      · rw [status_toldOf, dnsRecords_liveStatus, Verifier.records?_of_keyless _ _ rfl]
        rfl
  · refine ⟨_, hturned d.outline, ?_⟩
    rw [status_toldOf, liveStatus_outline, dnsRecords_liveStatus]
    rfl

/-- A calm visit of a live registration with the finalizer has it publish what is due, and what it
published if nothing is. -/
theorem published?_after (rec : Reconciler) (hs : s.Sound) (hcalm : v.Calm)
    (hf : s.find? Registration v.key = some reg) (hlive : reg.metadata.isDeleting = false)
    (hmarked : reg.metadata.hasFinalizer rec.finalizer = true) :
    (rec.after s v).published? v.key
      = some ((rec.due? reg s).getD reg.status.dnsRecords) := by
  obtain ⟨told, hturned, hrecords⟩ := dnsRecords_turned rec v.now hlive hmarked
    (s.find? Domain (Binding.domainKey reg))
  have hfound : (rec.after s v).find? Registration v.key = some told := by
    rw [(leads_after hs hcalm).find?_eq, Sketch.visit_of_some rec v.now hf,
      Sketch.registrations_enter_self]
    exact hturned
  rw [published?, hfound, Option.map_some, hrecords]
  rfl

/-- Two stores differ in the records of a live registration with the finalizer, and a calm pass goes
over it in each, whatever it returns. If the domain says which records are due, the registration
publishes these in both stores after that. If not, it publishes in each what it did before. -/
theorem twins_publish (hs : s.Reachable) (ht : t.Reachable) (h : s.Twin t reg records)
    (hlive : reg.metadata.isDeleting = false)
    (hmarked : reg.metadata.hasFinalizer rec.finalizer = true) (now now' : Time) :
    (∀ due, rec.due? reg s = some due →
      (rec.after s (.calm now (Resource.key reg))).published? (Resource.key reg) = some due ∧
      (rec.after t (.calm now' (Resource.key reg))).published? (Resource.key reg) = some due) ∧
    (rec.due? reg s = none →
      (rec.after s (.calm now (Resource.key reg))).published? (Resource.key reg)
        = s.published? (Resource.key reg) ∧
      (rec.after t (.calm now' (Resource.key reg))).published? (Resource.key reg)
        = t.published? (Resource.key reg)) := by
  have hdomain : t.find? Domain (Binding.domainKey reg) = s.find? Domain (Binding.domainKey reg) :=
    find?_congr (h.elsewhere _ (slot_registration_ne _ _).symm)
  have hdue : rec.due? { reg with status.dnsRecords := records } t = rec.due? reg s :=
    congrArg (Option.bind · (rec.verifier.records? · reg.metadata.uid)) hdomain
  have hfirst := published?_after rec (v := .calm now (Resource.key reg))
    (sound_of_reachable hs) (fun _ => rfl) h.found hlive hmarked
  have hsecond := published?_after rec (v := .calm now' (Resource.key reg))
    (sound_of_reachable ht) (fun _ => rfl) h.retold hlive hmarked
  rw [hdue] at hsecond
  constructor
  · intro due hsome
    rw [hsome, Option.getD_some] at hfirst hsecond
    exact ⟨hfirst, hsecond⟩
  · intro hnone
    rw [hnone, Option.getD_none] at hfirst hsecond
    refine ⟨hfirst.trans ?_, hsecond.trans ?_⟩
    · rw [published?, h.found]
      rfl
    · rw [published?, h.retold]
      rfl

namespace Instructed

/-- The record with a token. -/
def tokenRecord (token : String) : DnsRecord :=
  .txt "_hostbind-verification.app" token

/-- A registration with the finalizer, as it is stored once it has been told to publish a token. -/
def instructed (token : String) : Registration where
  metadata := {
    ns? := some "team"
    name := "app"
    uid := Uid.nth 1
    resourceVersion := 2
    generation := 1
    creationTime := some .epoch
    finalizers := [({} : Reconciler).finalizer] }
  status := { dnsRecords := [tokenRecord token] }

/-- The registration and its domain are created. -/
def founding (key : Option String) : List (Request × Time) := [
  (.create .registration { instructed "" with status := {} }, .epoch),
  (.create .domain { Domain.named "app" with spec.verificationKey := key }, .epoch)]

/-- Then the registration is told to publish a token. -/
def instructing (key : Option String) (token : String) : List (Request × Time) :=
  founding key ++
    [(.updateStatus .registration { instructed token with metadata.resourceVersion := 1 }, .epoch)]

/-- The store after that. -/
def store (key : Option String) (token : String) : Store :=
  empty.after (instructing key token)

theorem get?_store (key : Option String) (token : String) {slot : Slot}
    (hne : slot ≠ Store.slot Registration (Resource.key (instructed token))) :
    (store key token).objects.get? slot = (empty.after (founding key)).objects.get? slot := by
  rw [store, instructing, after_append]
  exact get?_updateStatus (Sound.empty.after (founding key)) _ .epoch hne

theorem issued_store (key : Option String) (token : String) :
    (store key token).issued = (empty.after (founding key)).issued := by
  rw [store, instructing, after_append]
  exact issued_updateStatus (Sound.empty.after (founding key)) _ .epoch

theorem twin_store (key : Option String) (token token' : String)
    (hfound : (store key token).find? Registration (Resource.key (instructed token))
      = some (instructed token))
    (hfound' : (store key token').find? Registration (Resource.key (instructed token'))
      = some (instructed token')) :
    (store key token).Twin (store key token') (instructed token) [tokenRecord token'] where
  found := hfound
  retold := hfound'
  elsewhere slot hne := by rw [get?_store key token hne, get?_store key token' hne]
  issued_eq := by rw [issued_store, issued_store]

/-- With a key, the registration is told to publish its token in place of an earlier one. -/
theorem twins_publish_keyed :
    (store (some "secret") "first").Twin (store (some "secret") "second") (instructed "first")
      [tokenRecord "second"] ∧
    (instructed "first").metadata.isDeleting = false ∧
    (instructed "first").metadata.hasFinalizer ({} : Reconciler).finalizer = true ∧
    ({} : Reconciler).due? (instructed "first") (store (some "secret") "first")
      = some [tokenRecord (Token.derived "secret" (Uid.nth 1))] ∧
    ∀ earlier ∈ ["first", "second"],
      (({} : Reconciler).after (store (some "secret") earlier)
        (.calm .epoch (Resource.key (instructed "first")))).published?
          (Resource.key (instructed "first"))
        = some [tokenRecord (Token.derived "secret" (Uid.nth 1))] := by
  have htwin : (store (some "secret") "first").Twin (store (some "secret") "second")
      (instructed "first") [tokenRecord "second"] :=
    twin_store _ _ _ (by decide +kernel) (by decide +kernel)
  have hd : (store (some "secret") "first").find? Domain { name := "app" } = some keyed := by
    decide +kernel
  have hname : Hostname.recordName ({} : Reconciler).verifier.label keyed.hostname
      = .ok "_hostbind-verification.app" := by decide +kernel
  have hdue : ({} : Reconciler).due? (instructed "first") (store (some "secret") "first")
      = some [tokenRecord (Token.derived "secret" (Uid.nth 1))] :=
    (congrArg (Option.bind · _) hd).trans (Verifier.records?_of_named rfl hname)
  obtain ⟨hfirst, hsecond⟩ := (twins_publish ⟨_, rfl⟩ ⟨_, rfl⟩ htwin rfl (by decide) .epoch
    .epoch).1 _ hdue
  refine ⟨htwin, rfl, by decide, hdue, fun earlier hearlier => ?_⟩
  obtain rfl | rfl := by simpa using hearlier
  · exact hfirst
  · exact hsecond

/-- Without a key, the registration goes on to publish an earlier token. -/
theorem earlier_record_published : ¬∀ (rec : Reconciler) (reg : Registration) (s t : Store)
    (records : List DnsRecord) (now : Time), s.Reachable → t.Reachable → s.Twin t reg records →
    reg.metadata.isDeleting = false → reg.metadata.hasFinalizer rec.finalizer = true →
    ((rec.reconcile (Resource.key reg)).exec (Port.calm s now)).1 = .ok .done →
    ((rec.reconcile (Resource.key reg)).exec (Port.calm t now)).1 = .ok .done →
    (rec.after s (.calm now (Resource.key reg))).published? (Resource.key reg)
      = (rec.after t (.calm now (Resource.key reg))).published? (Resource.key reg) := by
  intro h
  have hsame := h {} (instructed "first") (store none "first") (store none "second")
    [tokenRecord "second"] .epoch ⟨_, rfl⟩ ⟨_, rfl⟩
    (twin_store _ _ _ (by decide +kernel) (by decide +kernel))
    rfl (by decide) (by decide +kernel) (by decide +kernel)
  revert hsame
  decide +kernel

end Instructed

end Reconciler

end Registrar
