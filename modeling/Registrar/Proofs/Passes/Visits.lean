import Registrar.Proofs.Passes.Settled

/-!
# Passes one after the other

A visit is a pass that has the store to itself, with its reading of the clock and the calls of it
that fail. Whatever fails, a visit of a key leaves all other registrations as they are, with what is
listed of them, and of every domain all but the list; its own registration keeps what it asks for
and the finalizers of others, and goes only when it is deleting and holds none of those
(`confined_after`).
-/

namespace Registrar

open Resource Parts Store

/-- A pass over a key, when it reads the clock, and which of its calls fail. -/
structure Visit where
  key : Key
  now : Time
  failures : Nat → Option StoreError

namespace Visit

def port (v : Visit) (s : Store) : Port where
  store := s
  now := v.now
  failures := v.failures

/-- No call of the visit fails. -/
def Calm (v : Visit) : Prop :=
  ∀ n, v.failures n = none

theorem port_of_calm {v : Visit} (h : v.Calm) (s : Store) : v.port s = Port.calm s v.now := by
  rw [port, Port.calm, funext h]

end Visit

/-- A registration keeps from one state to the other all that is not a pass's to change. -/
structure Registration.Kept (marker : String) (reg reg' : Registration) : Prop where
  uid_eq : reg'.metadata.uid = reg.metadata.uid
  spec_eq : reg'.spec = reg.spec
  deleting_eq : reg'.metadata.isDeleting = reg.metadata.isDeleting
  held_iff : ∀ f, f ≠ marker → (f ∈ reg'.metadata.finalizers ↔ f ∈ reg.metadata.finalizers)

/-- A registration in another version and with another status. -/
def Registration.restated (reg : Registration) (version : UInt64) (status : Registration.Status) :
    Registration :=
  { reg with metadata.resourceVersion := version, status }

/-- What becomes of the registration of a key in a pass. -/
inductive Registration.Stays (marker : String) : Option Registration → Option Registration → Prop
  | missing : Stays marker none none
  | released {reg : Registration} (deleting : reg.metadata.isDeleting = true)
      (bare : ∀ f ∈ reg.metadata.finalizers, f = marker) : Stays marker (some reg) none
  | kept {reg reg' : Registration} (kept : reg.Kept marker reg') :
      Stays marker (some reg) (some reg')

namespace Registration

variable {marker : String} {reg reg' reg'' : Registration} {o o' o'' : Option Registration}

theorem Kept.refl (marker : String) (reg : Registration) : reg.Kept marker reg :=
  ⟨rfl, rfl, rfl, fun _ _ => Iff.rfl⟩

theorem Kept.trans (h : reg.Kept marker reg') (h' : reg'.Kept marker reg'') :
    reg.Kept marker reg'' where
  uid_eq := h'.uid_eq.trans h.uid_eq
  spec_eq := h'.spec_eq.trans h.spec_eq
  deleting_eq := h'.deleting_eq.trans h.deleting_eq
  held_iff f hf := (h'.held_iff f hf).trans (h.held_iff f hf)

theorem Stays.refl (marker : String) (o : Option Registration) : Stays marker o o := by
  rcases o with _ | reg
  · exact .missing
  · exact .kept (.refl marker reg)

theorem Stays.trans (h : Stays marker o o') (h' : Stays marker o' o'') : Stays marker o o'' := by
  cases h with
  | missing => exact h'
  | released deleting bare =>
    cases h'
    exact .released deleting bare
  | kept kept =>
    cases h' with
    | released deleting bare =>
      refine .released (kept.deleting_eq ▸ deleting) fun f hf => ?_
      by_contra hne
      exact hne (bare f ((kept.held_iff f hne).2 hf))
    | kept kept' => exact .kept (kept.trans kept')

end Registration

namespace Store

/-- A pass over a key leads from one store to the other and changes nothing of other registrations.
-/
structure Confined (marker : String) (key : Key) (s t : Store) : Prop where
  sound : t.Sound
  others : ∀ key', key' ≠ key → t.find? Registration key' = s.find? Registration key'
  stays : Registration.Stays marker (s.find? Registration key) (t.find? Registration key)
  listedOf_eq : ∀ key', key' ≠ key → ∀ domainKey,
    t.listedOf key' domainKey = s.listedOf key' domainKey
  domains : ∀ domainKey d, s.find? Domain domainKey = some d → ∃ d',
    t.find? Domain domainKey = some d' ∧ d'.spec.verificationKey = d.spec.verificationKey ∧
    d'.status = d.status

namespace Confined

variable {marker : String} {key domainKey : Key} {s t u : Store} {reg : Registration}

theorem refl (marker : String) (key : Key) (hs : s.Sound) : s.Confined marker key s where
  sound := hs
  others _ _ := rfl
  stays := .refl _ _
  listedOf_eq _ _ _ := rfl
  domains _ d hd := ⟨d, hd, rfl, rfl⟩

theorem trans (h : s.Confined marker key t) (h' : t.Confined marker key u) :
    s.Confined marker key u where
  sound := h'.sound
  others key' hne := (h'.others key' hne).trans (h.others key' hne)
  stays := h.stays.trans h'.stays
  listedOf_eq key' hne domainKey :=
    (h'.listedOf_eq key' hne domainKey).trans (h.listedOf_eq key' hne domainKey)
  domains domainKey d hd := by
    obtain ⟨d', hd', hkey, hstatus⟩ := h.domains domainKey d hd
    obtain ⟨d'', hd'', hkey', hstatus'⟩ := h'.domains domainKey d' hd'
    exact ⟨d'', hd'', hkey'.trans hkey, hstatus'.trans hstatus⟩

/-- A write of a domain's list is confined to a key when it leaves the references of all others. -/
theorem of_relisted {list : List Reference} (hs : s.Sound) (h : s.Relisted domainKey list t)
    (hlist : ∀ key', key' ≠ key →
      list.filter (fun r => r.key = key') = s.listedOf key' domainKey) :
    s.Confined marker key t where
  sound := Sound.wrote (k := .domain) hs h.wrote
  others key' _ := h.registration_eq key'
  stays := by
    rw [h.registration_eq]
    exact .refl _ _
  listedOf_eq key' hne :=
    have hspares : s.Spares marker key' t := h.spares (hlist key' hne)
    hspares.listed
  domains domainKey' d hd := by
    by_cases hkey : domainKey' = domainKey
    · subst hkey
      exact ⟨_, h.kept d hd, rfl, rfl⟩
    · exact ⟨d, by rw [h.other domainKey' hkey, hd], rfl, rfl⟩

theorem of_wrote (hs : s.Sound) (h : s.Wrote Registration t)
    (hothers : ∀ key', key' ≠ key → t.find? Registration key' = s.find? Registration key')
    (hstays : Registration.Stays marker (s.find? Registration key) (t.find? Registration key)) :
    s.Confined marker key t where
  sound := Sound.wrote (k := .registration) hs h
  others := hothers
  stays := hstays
  listedOf_eq key' _ := listedOf_congr (listed_of_wrote h) key'
  domains domainKey d hd := ⟨d, by rw [h.find?_other (by decide), hd], rfl, rfl⟩

/-- A write of the status is confined to the key of its registration. -/
theorem put_retold (hs : s.Sound) (hf : s.find? Registration (Resource.key reg) = some reg)
    (status : Registration.Status)
    (hw : s.Wrote Registration (s.put (Reconciler.retold reg status))) :
    s.Confined marker (Resource.key reg) (s.put (Reconciler.retold reg status)) := by
  refine .of_wrote hs hw (fun key' hne => ?_) ?_
  · rw [find?_put, Reconciler.key_retold, if_neg hne]
  · rw [hf, Reconciler.find?_put_retold]
    exact .kept ⟨rfl, rfl, rfl, fun _ _ => Iff.rfl⟩

/-- A write of the finalizers is confined to the key of its registration when it leaves all but one.
-/
theorem of_remarked {list : List String} {event : WatchEvent Registration} (hs : s.Sound)
    (hf : s.find? Registration (Resource.key reg) = some reg) (h : s.Remarked reg list event t)
    (hlist : ∀ f, f ≠ marker → (f ∈ list ↔ f ∈ reg.metadata.finalizers)) :
    s.Confined marker (Resource.key reg) t := by
  refine .of_wrote hs h.wrote h.others ?_
  rw [hf, h.find?_eq]
  split
  · rename_i hgone
    rw [Bool.and_eq_true, List.isEmpty_iff] at hgone
    refine .released hgone.1 fun f hf => ?_
    by_contra hne
    have := (hlist f hne).2 hf
    simp [hgone.2] at this
  · exact .kept ⟨rfl, rfl, rfl, hlist⟩

end Confined

end Store

theorem Binding.Registered.registrations {hostname : String} {r : Reference} {w : Port} {α : Type}
    {done : α} {out : Except PassError α × Port} (h : Binding.Registered hostname r w done out)
    (key : Key) : out.2.store.find? Registration key = w.store.find? Registration key := by
  cases h with
  | refused untouched => rw [untouched.store_eq]
  | listed => rfl
  | written _ relisted => exact relisted.registration_eq key

namespace Reconciler

open Port

variable {rec : Reconciler} {w : Port} {reg o : Registration} {s : Store}

theorem confined_register (marker : String) (hs : w.store.Sound) (reg : Registration)
    (attempts : Nat) : w.store.Confined marker (Resource.key reg)
      ((Binding.register reg attempts).exec w).2.store := by
  have hout := Binding.exec_register hs reg attempts
  generalize (Binding.register reg attempts).exec w = out at hout ⊢
  cases hout with
  | refused untouched =>
    rw [untouched.store_eq]
    exact .refl _ _ hs
  | listed => exact .refl _ _ hs
  | written _ relisted => exact .of_relisted hs relisted fun key' hne => filter_append _ hne.symm

theorem confined_unregister (marker : String) (hs : w.store.Sound) (reg : Registration)
    (attempts : Nat) : w.store.Confined marker (Resource.key reg)
      ((Binding.unregister reg attempts).exec w).2.store := by
  have hout := Binding.exec_unregister hs reg attempts
  generalize (Binding.unregister reg attempts).exec w = out at hout ⊢
  cases hout with
  | failed untouched =>
    rw [untouched.store_eq]
    exact .refl _ _ hs
  | unlisted => exact .refl _ _ hs
  | written _ relisted => exact .of_relisted hs relisted fun key' hne => filter_remove _ hne.symm

theorem confined_report (marker : String) (hs : w.store.Sound)
    (hf : w.store.find? Registration (Resource.key reg) = some reg)
    (hmeta : o.metadata = reg.metadata) (c : Condition) (previous : List Condition) :
    w.store.Confined marker (Resource.key reg) ((report o c previous).exec w).2.store ∧
    ∀ stored, ((report o c previous).exec w).1 = .ok stored →
      Resource.key stored = Resource.key reg ∧
      ((report o c previous).exec w).2.store.find? Registration (Resource.key reg)
        = some stored := by
  obtain ⟨-, e, -, hp⟩ | ⟨-, ⟨-, hp⟩ | ⟨-, hw, hp⟩⟩ :=
    exec_report hs hf hmeta c previous <;> rw [hp]
  · exact ⟨.refl _ _ hs, by simp⟩
  · refine ⟨.refl _ _ hs, fun stored h => ?_⟩
    obtain rfl := Except.ok.inj h
    exact ⟨rfl, hf⟩
  · refine ⟨.put_retold hs hf _ hw, fun stored h => ?_⟩
    obtain rfl := Except.ok.inj h
    exact ⟨key_retold _ _, find?_put_retold _ _ _⟩

theorem confined_finish (rec : Reconciler) (hs : w.store.Sound)
    (hf : w.store.find? Registration (Resource.key reg) = some reg) (removable : Bool) :
    w.store.Confined rec.finalizer (Resource.key reg)
      ((rec.finish reg removable).exec w).2.store := by
  obtain ⟨-, e, hp⟩ | ⟨hp, -⟩ | ⟨-, -, event, s, hremarked, hp⟩ :=
    exec_finish rec hs hf removable <;> rw [hp]
  · exact .refl _ _ hs
  · exact .refl _ _ hs
  · exact .of_remarked hs hf hremarked fun f hne => by simp [hne]

theorem confined_announce (rec : Reconciler) (marker : String) (hs : w.store.Sound)
    (hf : w.store.find? Registration (Resource.key reg) = some reg) :
    w.store.Confined marker (Resource.key reg) ((rec.announce reg).exec w).2.store := by
  obtain ⟨-, e, w', -, hp, hstore⟩ | ⟨-, ⟨-, hp⟩ | ⟨-, w', hp, hw, -, hstore⟩⟩ :=
    exec_announce rec hs hf <;> rw [hp]
  · rw [hstore]
    exact .refl _ _ hs
  · exact .refl _ _ hs
  · rw [hstore] at hw ⊢
    exact .put_retold hs hf _ hw

/-- What is told of a registration that is bound becomes its status, if the call does not fail. -/
theorem restated_announce (rec : Reconciler) (hs : w.store.Sound)
    (hf : w.store.find? Registration (Resource.key reg) = some reg) :
    w.failures (w.calls + 1) ≠ none ∧ ((rec.announce reg).exec w).2.store = w.store ∨
    w.failures (w.calls + 1) = none ∧
      (∃ version, ((rec.announce reg).exec w).2.store.find? Registration (Resource.key reg)
        = some (reg.restated version
          (rec.liveStatus reg w.now (w.perform (.get Domain (Binding.domainKey reg))).1))) ∧
      ∀ key, ((rec.announce reg).exec w).2.store.find? Domain key = w.store.find? Domain key := by
  obtain ⟨cause, e, w', hcause, hp, hstore⟩ | ⟨hnone, ⟨hsame, hp⟩ | ⟨-, w', hp, hw, -, hstore⟩⟩ :=
    exec_announce rec hs hf <;> rw [hp]
  · exact .inl ⟨by simp [hcause], hstore⟩
  · refine .inr ⟨hnone, ⟨reg.metadata.resourceVersion, ?_⟩, fun _ => rfl⟩
    rw [hsame]
    exact hf
  · refine .inr ⟨hnone, ⟨reg.metadata.resourceVersion + 1, ?_⟩,
      fun key => hw.find?_other (by decide) key⟩
    rw [hstore]
    exact find?_put_retold _ _ _

theorem confined_reconcileDeleting (rec : Reconciler) (hs : w.store.Sound)
    (hf : w.store.find? Registration (Resource.key reg) = some reg) :
    w.store.Confined rec.finalizer (Resource.key reg)
      ((rec.reconcileDeleting reg).exec w).2.store := by
  have hreleased := confined_unregister rec.finalizer hs reg rec.attempts
  have hfv := ((Binding.exec_unregister hs reg rec.attempts).registrations hs).2 (Resource.key reg)
  rw [hf] at hfv
  rw [reconcileDeleting_eq, Pass.exec_bind, exec_accepted]
  generalize (Binding.unregister reg rec.attempts).exec w = out at hreleased hfv ⊢
  obtain ⟨answer, v⟩ := out
  have hreported := confined_report rec.finalizer hreleased.sound hfv rfl
    (departure answer).1 reg.status.conditions
  dsimp only at hreported ⊢
  rw [Pass.exec_bind]
  generalize (report reg (departure answer).1 reg.status.conditions).exec v = out at hreported ⊢
  obtain ⟨e | stored, u⟩ := out
  · exact hreleased.trans hreported.1
  · obtain ⟨hkey, hfu⟩ := hreported.2 stored rfl
    rw [← hkey] at hfu
    exact hreleased.trans (hreported.1.trans
      (hkey ▸ confined_finish rec hreported.1.sound hfu (departure answer).2))

/-- A pass over a live registration that holds the finalizer binds it and tells of it. -/
theorem reconcileLive_of_marked (h : reg.metadata.hasFinalizer rec.finalizer = true) (w : Port) :
    (rec.reconcileLive reg).exec w
      = (Binding.register reg rec.attempts >>= fun _ => rec.announce reg).exec w := by
  rw [reconcileLive, Pass.exec_bind, Pass.exec_lift, run_ensure_of_marked h]
  rfl

theorem confined_reconcileLive (rec : Reconciler) (hs : w.store.Sound)
    (hf : w.store.find? Registration (Resource.key reg) = some reg) :
    w.store.Confined rec.finalizer (Resource.key reg) ((rec.reconcileLive reg).exec w).2.store := by
  rcases hmarked : reg.metadata.hasFinalizer rec.finalizer with _ | _
  · rw [reconcileLive, Pass.exec_bind, Pass.exec_lift]
    obtain ⟨-, e, hp⟩ | ⟨next, event, s, hremarked, hp⟩ := run_ensure hs hf hmarked <;> rw [hp]
    · exact .refl _ _ hs
    · exact .of_remarked hs hf hremarked fun f hne => by simp [hne]
  · rw [reconcileLive_of_marked hmarked, Pass.exec_bind]
    have hbound := confined_register rec.finalizer hs reg rec.attempts
    have hfv := (Binding.exec_register hs reg rec.attempts).registrations (Resource.key reg)
    rw [hf] at hfv
    generalize (Binding.register reg rec.attempts).exec w = out at hbound hfv ⊢
    obtain ⟨e | _, v⟩ := out
    · exact hbound
    · exact hbound.trans (confined_announce rec rec.finalizer hbound.sound hfv)

/-- A pass is confined to its key, whichever of its calls fail. -/
theorem confined_reconcile (rec : Reconciler) (key : Key) (hs : w.store.Sound) :
    w.store.Confined rec.finalizer key ((rec.reconcile key).exec w).2.store := by
  rcases hread : w.failures w.calls with _ | e
  · rcases hf : w.store.find? Registration key with _ | reg
    · rw [exec_reconcile_of_none hs hread hf]
      exact .refl _ _ hs
    · obtain rfl := (hs.registration.proper hf).key_eq
      rw [exec_reconcile_of_found hs hread hf]
      split
      · exact confined_reconcileDeleting rec (w := w.skip) hs hf
      · exact confined_reconcileLive rec (w := w.skip) hs hf
  · rw [reconcile, Pass.exec_bind, Pass.exec_ask, perform_fails hread]
    dsimp only
    split <;> exact .refl _ _ hs

section Verdict

variable {d : Domain} {verificationKey name : String}

theorem verdict_of_keyless (rec : Reconciler) (reg : Registration)
    (hkey : d.spec.verificationKey = none) :
    rec.verdict reg (.ok d) = ({ aspect := .verified, status := .isFalse }, reg) := by
  simp only [verdict, Verifier.verify, hkey]
  rfl

theorem verdict_of_unnamed (rec : Reconciler) (reg : Registration) {e : HostnameError}
    (hkey : d.spec.verificationKey = some verificationKey)
    (hname : Hostname.recordName rec.verifier.label d.hostname = .error e) :
    rec.verdict reg (.ok d) = (unknown .verified (.ofHostname e), reg) := by
  simp only [verdict, Verifier.verify, hkey, hname]
  rfl

theorem verdict_of_named (rec : Reconciler) (reg : Registration)
    (hkey : d.spec.verificationKey = some verificationKey)
    (hname : Hostname.recordName rec.verifier.label d.hostname = .ok name) :
    rec.verdict reg (.ok d) = (
      { aspect := .verified,
        status := .ofBool (Condition.holds reg.status.conditions .verified) },
      { reg with status.dnsRecords := d.status.loadBalancerRecords
          ++ [.txt name (rec.verifier.token verificationKey reg.metadata.uid)] }) := by
  simp only [verdict, Verifier.verify, hkey, hname]
  rfl

end Verdict

theorem aspect_verdict (rec : Reconciler) (reg : Registration) (answer : Except StoreError Domain) :
    (rec.verdict reg answer).1.aspect = .verified := by
  unfold verdict
  split <;> split <;> rfl

theorem holds_liveStatus (rec : Reconciler) (reg : Registration) (now : Time)
    (answer : Except StoreError Domain) :
    Condition.holds (rec.liveStatus reg now answer).conditions .verified
      = ((rec.verdict reg answer).1.status == .isTrue) := by
  rw [← aspect_verdict rec reg answer]
  simp [liveStatus, reported, Condition.holds, Condition.find?, Condition.merge]

/-- What a pass tells of a live registration is the same for two domains that differ in their lists.
-/
theorem verdict_congr (rec : Reconciler) (reg : Registration) {d d' : Domain}
    (hname : d'.hostname = d.hostname) (hkey : d'.spec.verificationKey = d.spec.verificationKey)
    (hstatus : d'.status = d.status) : rec.verdict reg (.ok d') = rec.verdict reg (.ok d) := by
  have hverify : rec.verifier.verify d' reg = rec.verifier.verify d reg := by
    simp only [Verifier.verify, hname, hkey, hstatus]
  simp only [verdict, hverify]

/-- The store after a visit. -/
def after (rec : Reconciler) (s : Store) (v : Visit) : Store :=
  ((rec.reconcile v.key).exec (v.port s)).2.store

/-- The store after visits one after the other. -/
def afterAll (rec : Reconciler) (s : Store) (visits : List Visit) : Store :=
  visits.foldl rec.after s

theorem after_of_marked (hs : s.Sound) {v : Visit} (hread : v.failures 0 = none)
    (hf : s.find? Registration v.key = some reg) (hlive : reg.metadata.isDeleting = false)
    (hmarked : reg.metadata.hasFinalizer rec.finalizer = true) :
    rec.after s v = ((Binding.register reg rec.attempts >>= fun _ => rec.announce reg).exec
      (v.port s).skip).2.store := by
  rw [after, exec_reconcile_of_found (w := v.port s) hs hread hf, hlive]
  exact congrArg (·.2.store) (reconcileLive_of_marked hmarked _)

/-- A visit whose registration is not read changes nothing. -/
theorem after_of_failed (rec : Reconciler) {v : Visit} {e : StoreError}
    (h : v.failures 0 = some e) : rec.after s v = s := by
  rw [after, reconcile, Pass.exec_bind, Pass.exec_ask, perform_fails (w := v.port s) h]
  dsimp only
  split <;> rfl

theorem confined_after (rec : Reconciler) (hs : s.Sound) (v : Visit) :
    s.Confined rec.finalizer v.key (rec.after s v) :=
  confined_reconcile rec v.key (w := v.port s) hs

theorem sound_afterAll (rec : Reconciler) :
    ∀ {s : Store} (visits : List Visit), s.Sound → (rec.afterAll s visits).Sound
  | _, [], hs => hs
  | _, v :: visits, hs => sound_afterAll rec visits (confined_after rec hs v).sound

theorem stays_after (rec : Reconciler) (hs : s.Sound) (v : Visit) (key : Key) :
    Registration.Stays rec.finalizer (s.find? Registration key)
      ((rec.after s v).find? Registration key) := by
  by_cases hkey : key = v.key
  · exact hkey ▸ (confined_after rec hs v).stays
  · rw [(confined_after rec hs v).others key hkey]
    exact .refl _ _

theorem stays_afterAll (rec : Reconciler) (key : Key) :
    ∀ {s : Store} (visits : List Visit), s.Sound →
      Registration.Stays rec.finalizer (s.find? Registration key)
        ((rec.afterAll s visits).find? Registration key)
  | _, [], _ => .refl _ _
  | _, v :: visits, hs => (stays_after rec hs v key).trans
      (stays_afterAll rec key visits (confined_after rec hs v).sound)

theorem hostname_of_find? {domainKey : Key} {d : Domain} (hs : s.Sound)
    (hd : s.find? Domain domainKey = some d) : d.hostname = domainKey.name :=
  congrArg Key.name (hs.domain.proper hd).key_eq

end Reconciler

end Registrar
