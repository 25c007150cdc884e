import Registrar.Proofs.Hostname.RecordName
import Registrar.Proofs.Passes.Orders

/-!
# Spellings of a hostname

A domain has the name of a hostname as it is written, and record names are formed of its normal
form. So two spellings of one hostname are two domains: each registration is bound to the domain of
its own spelling, and both domains claim one record name (`bound_as_spelled`).
-/

namespace Registrar

open Resource Parts Store Hostname

/-- The domain of a registration's hostname, as it is stored, lists the registration. -/
structure Store.Binds (s : Store) (reg : Registration) (d : Domain) : Prop where
  found : s.find? Domain (Binding.domainKey reg) = some d
  listed : References.contains d.spec.registrations (Resource.reference reg) = true

namespace Store.Binds

variable {s : Store} {reg reg' : Registration} {d d' : Domain}

theorem hostname_eq (h : s.Binds reg d) (hs : s.Sound) : d.hostname = reg.hostname :=
  Reconciler.hostname_of_find? hs h.found

/-- The domain is the one of the hostname as the registration has it. -/
theorem eq_iff (h : s.Binds reg d) (h' : s.Binds reg' d') (hs : s.Sound) :
    d = d' ↔ reg.hostname = reg'.hostname := by
  constructor
  · intro heq
    rw [← h.hostname_eq hs, ← h'.hostname_eq hs, heq]
  · intro hname
    have hkey : Binding.domainKey reg = Binding.domainKey reg' := congrArg (Key.mk none) hname
    exact Option.some.inj (h.found.symm.trans (hkey ▸ h'.found))

end Store.Binds

namespace Reconciler

variable {s : Store} {reg reg' : Registration} {visits : List Visit}
  {normal : String}

/-- Two calm visits or more bind a live registration whose hostname is not blank. -/
theorem binds_afterAll (rec : Reconciler) (hs : s.Sound) (hcalm : ∀ v ∈ visits, v.Calm)
    (hf : s.find? Registration (Resource.key reg) = some reg)
    (hlive : reg.metadata.isDeleting = false) (hnamed : Text.trim reg.hostname ≠ "")
    (htwice : 2 ≤ (visits.map Visit.key).count (Resource.key reg)) :
    ∃ d, (rec.afterAll s visits).Binds reg d := by
  have hrest : rec.AtRest (Resource.key reg) (rec.afterAll s visits) :=
    atRest_afterAll hs hcalm fun _ => htwice
  have hstays := stays_afterAll rec (Resource.key reg) visits hs
  rw [hf] at hstays
  generalize hf' : (rec.afterAll s visits).find? Registration (Resource.key reg) = o at hstays
  cases hstays with
  | released deleting => simp [hlive] at deleting
  | @kept _ reg' kept =>
    have hkey : Resource.key reg' = Resource.key reg :=
      ((sound_afterAll rec visits hs).registration.proper hf').key_eq
    have hdomain := domainKey_congr hkey kept.spec_eq
    have hname : reg'.hostname = reg.hostname := congrArg Key.name hdomain
    obtain ⟨-, hlisted, -⟩ := hrest.bound hf' (kept.deleting_eq.trans hlive) (hname ▸ hnamed)
    rw [hdomain, reference_congr hkey kept.uid_eq] at hlisted
    obtain ⟨d, hd, hcontains⟩ := exists_of_contains hlisted
    exact ⟨d, hd, hcontains⟩

/-- Two live registrations whose hostnames have one normal form are each bound to the domain of its
own spelling. These are one domain just when the hostnames are spelled alike, and claim one record
name if they claim any. Domains claim one record name only when their hostnames are the same but for
the case of letters and a dot at the end. -/
theorem bound_as_spelled (rec : Reconciler) (hs : s.Reachable) (hcalm : ∀ v ∈ visits, v.Calm)
    (hf : s.find? Registration (Resource.key reg) = some reg)
    (hf' : s.find? Registration (Resource.key reg') = some reg')
    (hlive : reg.metadata.isDeleting = false) (hlive' : reg'.metadata.isDeleting = false)
    (hnormal : normalize reg.hostname = .ok normal)
    (hnormal' : normalize reg'.hostname = .ok normal)
    (htwice : 2 ≤ (visits.map Visit.key).count (Resource.key reg))
    (htwice' : 2 ≤ (visits.map Visit.key).count (Resource.key reg')) :
    (∃ d d', (rec.afterAll s visits).Binds reg d ∧ (rec.afterAll s visits).Binds reg' d' ∧
      (d = d' ↔ reg.hostname = reg'.hostname) ∧
      recordName rec.verifier.label d.hostname = recordName rec.verifier.label d'.hostname) ∧
    ∀ (e e' : Domain) (name : String), recordName rec.verifier.label e.hostname = .ok name →
      (recordName rec.verifier.label e'.hostname = .ok name ↔
        SameName e.hostname e'.hostname) := by
  have hs := sound_of_reachable hs
  have ht := sound_afterAll rec visits hs
  obtain ⟨d, hd⟩ := binds_afterAll rec hs hcalm hf hlive (trim_ne_of_normalize hnormal) htwice
  obtain ⟨d', hd'⟩ :=
    binds_afterAll rec hs hcalm hf' hlive' (trim_ne_of_normalize hnormal') htwice'
  refine ⟨⟨d, d', hd, hd', hd.eq_iff hd' ht, ?_⟩, fun e e' name => recordName_eq_iff⟩
  rw [hd.hostname_eq ht, hd'.hostname_eq ht, recordName_congr _ hnormal hnormal']

namespace Spelled

/-- Two registrations are created that spell one hostname in two ways. -/
def spelling : List (Request × Time) :=
  [(.create .registration (spelled "app" "Acme.example"), .epoch),
    (.create .registration (spelled "web" "acme.example."), .epoch)]
where
  spelled (name hostname : String) : Registration :=
    (Registration.named "team" name).withHostname hostname

/-- The one that is created first, as it is stored. -/
def first : Registration :=
  stamped (spelling.spelled "app" "Acme.example") (Uid.nth 1) .epoch

/-- The one that is created second, as it is stored. -/
def second : Registration :=
  stamped (spelling.spelled "web" "acme.example.") (Uid.nth 2) .epoch

/-- Four calm visits of the two in turn. -/
def turns : List Visit :=
  [⟨some "team", "app"⟩, ⟨some "team", "web"⟩, ⟨some "team", "app"⟩, ⟨some "team", "web"⟩].map
    (Visit.calm .epoch)

theorem calm_turns : ∀ v ∈ turns, v.Calm := by
  simp [turns, Visit.calm, Visit.Calm]

/-- The two are bound to two domains. -/
theorem bound_as_spelled_twice :
    (empty.after spelling).find? Registration (Resource.key first) = some first ∧
    (empty.after spelling).find? Registration (Resource.key second) = some second ∧
    normalize first.hostname = .ok "acme.example" ∧
    normalize second.hostname = .ok "acme.example" ∧
    ∃ d d', (({} : Reconciler).afterAll (empty.after spelling) turns).Binds first d ∧
      (({} : Reconciler).afterAll (empty.after spelling) turns).Binds second d' ∧ d ≠ d' := by
  have hf : (empty.after spelling).find? Registration (Resource.key first) = some first := by
    decide +kernel
  have hf' : (empty.after spelling).find? Registration (Resource.key second) = some second := by
    decide +kernel
  have hn : normalize first.hostname = .ok "acme.example" := by decide +kernel
  have hn' : normalize second.hostname = .ok "acme.example" := by decide +kernel
  obtain ⟨⟨d, d', hd, hd', heq, -⟩, -⟩ := bound_as_spelled {} ⟨spelling, rfl⟩ calm_turns hf hf' rfl
    rfl hn hn' (by decide) (by decide)
  exact ⟨hf, hf', hn, hn', d, d', hd, hd', fun h => absurd (heq.1 h) (by decide)⟩

/-- No domain lists both of two registrations that spell one hostname in two ways. -/
theorem spellings_apart : ¬∀ (rec : Reconciler) (s : Store) (visits : List Visit)
    (reg reg' : Registration) (normal : String), s.Reachable → (∀ v ∈ visits, v.Calm) →
    s.find? Registration (Resource.key reg) = some reg →
    s.find? Registration (Resource.key reg') = some reg' →
    reg.metadata.isDeleting = false → reg'.metadata.isDeleting = false →
    normalize reg.hostname = .ok normal → normalize reg'.hostname = .ok normal →
    2 ≤ (visits.map Visit.key).count (Resource.key reg) →
    2 ≤ (visits.map Visit.key).count (Resource.key reg') →
    ∃ key, References.contains ((rec.afterAll s visits).listed key) (Resource.reference reg) ∧
      References.contains ((rec.afterAll s visits).listed key) (Resource.reference reg') := by
  intro h
  have hslots : ∀ place ∈ (({} : Reconciler).afterAll (empty.after spelling)
      turns).objects.entries.map Prod.fst, place.kind = Resource.kind Domain →
      ¬(References.contains ((({} : Reconciler).afterAll (empty.after spelling)
          turns).listed place.key) (Resource.reference first) = true ∧
        References.contains ((({} : Reconciler).afterAll (empty.after spelling)
          turns).listed place.key) (Resource.reference second) = true) := by
    decide +kernel
  obtain ⟨key, hfirst, hsecond⟩ := h {} (empty.after spelling) turns first second "acme.example"
    ⟨spelling, rfl⟩ calm_turns (by decide +kernel) (by decide +kernel) rfl rfl
    (by decide +kernel) (by decide +kernel) (by decide) (by decide)
  obtain ⟨d, hd, -⟩ := exists_of_contains hfirst
  exact hslots _ (slot_mem_of_isSome (Option.isSome_of_eq_some hd)) rfl ⟨hfirst, hsecond⟩

end Spelled

end Reconciler

end Registrar
