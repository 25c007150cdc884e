import Registrar.Proofs.Passes.Alone
import Registrar.Proofs.Passes.Reconcile

/-!
# Settled registrations

A registration is settled when a pass finds nothing to do. A pass on which no call fails leaves the
store as it is exactly when its registration is settled (`steady_iff_settled`).
-/

namespace Registrar

open Resource Parts Store

namespace Reconciler

open Port

variable {rec : Reconciler} {w : Port} {reg o : Registration}

/-- The status of a registration with a new condition in place of all previous ones. -/
def reported (o : Registration) (c : Condition) (previous : List Condition) (now : Time) :
    Registration.Status :=
  { o.status with conditions := Condition.merge [c] previous now }

/-- A registration as it is stored with another status. -/
def retold (reg : Registration) (status : Registration.Status) : Registration :=
  raised { reg with status } false

@[simp] theorem key_retold (reg : Registration) (status : Registration.Status) :
    Resource.key (retold reg status) = Resource.key reg :=
  key_raised _ _

theorem ne_of_raised {v : UInt64} : v + 1 ≠ v ∧ v + 1 + 1 ≠ v := by
  refine ⟨fun h => ?_, fun h => ?_⟩
  · exact absurd (eq_zero_of_raised (n := 1) h.symm (by decide)) (by decide)
  · rw [UInt64.add_assoc] at h
    exact absurd (eq_zero_of_raised (n := 2) h.symm (by decide)) (by decide)

theorem find?_put_retold (s : Store) (reg : Registration) (status : Registration.Status) :
    (s.put (retold reg status)).find? Registration (Resource.key reg)
      = some (retold reg status) := by
  rw [← key_retold reg status]
  exact find?_put_self

theorem retold_ne (reg : Registration) (status : Registration.Status) : retold reg status ≠ reg :=
  fun h => ne_of_raised.1 (congrArg (·.metadata.resourceVersion) h)

/-- A report on the stored registration is refused, or it tells what was told before, or it is
taken. -/
theorem exec_report (hs : w.store.Sound)
    (hf : w.store.find? Registration (Resource.key reg) = some reg)
    (hmeta : o.metadata = reg.metadata) (c : Condition) (previous : List Condition) :
    (∃ cause e, w.failures w.calls = some cause ∧
      (report o c previous).exec w = (.error e, w.skip)) ∨
    w.failures w.calls = none ∧
      (reported o c previous w.now = reg.status ∧
        (report o c previous).exec w = (.ok reg, w.skip) ∨
      reported o c previous w.now ≠ reg.status ∧
        w.store.Wrote Registration (w.store.put (retold reg (reported o c previous w.now))) ∧
        (report o c previous).exec w = (.ok (retold reg (reported o c previous w.now)),
          w.tell (w.store.put (retold reg (reported o c previous w.now)))
            (.applied (retold reg (reported o c previous w.now))))) := by
  have hexec : (report o c previous).exec w = (Pass.require (.updateStatus
      { o with status := reported o c previous w.now }) "Updating registration status").exec w := by
    rw [report, Pass.exec_bind, Pass.exec_now]
    rfl
  rw [hexec, Pass.exec_require]
  rcases hfails : w.failures w.calls with _ | e
  · have hkey : Resource.key { o with status := reported o c previous w.now } = Resource.key reg :=
      congrArg Metadata.key hmeta
    have hacc : w.store.Accepted { o with status := reported o c previous w.now } reg :=
      ⟨by rw [hkey, hf], congrArg Metadata.resourceVersion hmeta⟩
    have hok := isOk_updateStatus hs.registration hacc
    have hw := wrote_updateStatus hs.registration { o with status := reported o c previous w.now }
    rw [perform_answers hfails]
    obtain ⟨e, hp⟩ | ⟨current, hacc', hp⟩ :=
      updateStatus_cases hs.registration { o with status := reported o c previous w.now }
    · simp [hp, Except.isOk, Except.toBool] at hok
    · obtain rfl := Option.some.inj (hacc'.found.symm.trans hacc.found)
      obtain ⟨hsame, hp⟩ | ⟨next, rfl, hne, hp⟩ := hp
      · refine .inr ⟨rfl, .inl ⟨hsame, ?_⟩⟩
        simp [Store.perform, Store.told, hp, announced, skip, Except.mapError]
      · rw [hp] at hw
        refine .inr ⟨rfl, .inr ⟨hne, hw, ?_⟩⟩
        simp only [Store.perform, Store.told, hp, announced, Except.mapError, Port.tell,
          Option.map_some]
        rfl
  · refine .inl ⟨e, .ofStore e "Updating registration status", rfl, ?_⟩
    rw [perform_fails hfails]
    rfl

theorem exec_verified : (rec.verified reg).exec w
    = (.ok (rec.verdict reg (w.perform (.get Domain (Binding.domainKey reg))).1),
      (w.perform (.get Domain (Binding.domainKey reg))).2) := by
  rw [verified_eq, Pass.exec_map, Pass.exec_ask]
  rfl

/-- What a pass tells of a deleting registration when this is how the release has ended, and whether
the registration may go. -/
def departure : Except PassError Bool → Condition × Bool
  | .ok bound => ({ aspect := .accepted, status := .ofBool bound }, !bound)
  | .error e => (unknown .accepted e, false)

theorem exec_accepted : (rec.accepted reg).exec w
    = (.ok (departure ((Binding.unregister reg rec.attempts).exec w).1),
      ((Binding.unregister reg rec.attempts).exec w).2) := by
  rw [accepted, Pass.exec_bind, Pass.exec_attempt]
  rcases ((Binding.unregister reg rec.attempts).exec w).1 with e | bound <;> rfl

/-- The status that a pass tells of a live registration. -/
def liveStatus (rec : Reconciler) (reg : Registration) (now : Time)
    (answer : Except StoreError Domain) : Registration.Status :=
  reported (rec.verdict reg answer).2 (rec.verdict reg answer).1 reg.status.conditions now

/-- The status that a pass tells of a deleting registration. -/
def deletingStatus (reg : Registration) (now : Time) (answer : Except PassError Bool) :
    Registration.Status :=
  reported reg (departure answer).1 reg.status.conditions now

/-! ## A pass over a deleting registration -/

/-- Takes the finalizer off a registration that may go. -/
def finish (rec : Reconciler) (reg : Registration) (removable : Bool) : Pass Outcome := do
  if removable then
    match ← ExceptT.lift (Finalizer.release reg rec.finalizer) with
    | .ok _ => return .done
    | .error e => throw (.ofStore e "Removing finalizer")
  else return .done

theorem reconcileDeleting_eq : rec.reconcileDeleting reg = (do
    let (condition, removable) ← rec.accepted reg
    let stored ← report reg condition reg.status.conditions
    rec.finish stored removable) :=
  rfl

/-- How a pass over a deleting registration ends. -/
inductive Deleting (rec : Reconciler) (reg : Registration) (w : Port) :
    Except PassError Outcome × Port → Prop
  | failed {e : PassError} {w' : Port} (fails : w.Fails) : Deleting rec reg w (.error e, w')
  | told {w' : Port}
      (due : deletingStatus reg w.now ((Binding.unregister reg rec.attempts).exec w).1
        ≠ reg.status ∨ ((Binding.unregister reg rec.attempts).exec w).1 = .ok false ∧
          reg.metadata.hasFinalizer rec.finalizer = true)
      (told : w'.CallsFor (Resource.key reg))
      (changed : w'.store.find? Registration (Resource.key reg) ≠ some reg) :
      Deleting rec reg w (.ok .done, w')
  | silent (same : deletingStatus reg w.now ((Binding.unregister reg rec.attempts).exec w).1
        = reg.status)
      (bare : ((Binding.unregister reg rec.attempts).exec w).1 = .ok false →
        reg.metadata.hasFinalizer rec.finalizer = false) :
      Deleting rec reg w (.ok .done, ((Binding.unregister reg rec.attempts).exec w).2.skip)

theorem exec_finish (rec : Reconciler) (hs : w.store.Sound)
    (hf : w.store.find? Registration (Resource.key reg) = some reg) (removable : Bool) :
    (w.Fails ∧ ∃ e, (rec.finish reg removable).exec w = (.error e, w.skip)) ∨
    (rec.finish reg removable).exec w = (.ok .done, w) ∧
      (removable = true → reg.metadata.hasFinalizer rec.finalizer = false) ∨
    removable = true ∧ reg.metadata.hasFinalizer rec.finalizer = true ∧
      ∃ event s,
        w.store.Remarked reg (reg.metadata.finalizers.filter (· != rec.finalizer)) event s ∧
        (rec.finish reg removable).exec w = (.ok .done, w.tell s event) := by
  rcases removable with _ | _
  · exact .inr (.inl ⟨rfl, by simp⟩)
  · rw [finish, if_pos rfl, Pass.exec_bind, Pass.exec_lift]
    rcases hmarked : reg.metadata.hasFinalizer rec.finalizer with _ | _
    · rw [run_release_of_bare hmarked]
      exact .inr (.inl ⟨rfl, fun _ => rfl⟩)
    · obtain ⟨hfails, e, hp⟩ | ⟨event, s, hremarked, hp⟩ := run_release hs hf hmarked <;> rw [hp]
      · exact .inl ⟨hfails, _, rfl⟩
      · exact .inr (.inr ⟨rfl, rfl, event, s, hremarked, rfl⟩)

theorem exec_reconcileDeleting (rec : Reconciler) (hs : w.store.Sound)
    (hf : w.store.find? Registration (Resource.key reg) = some reg) :
    Deleting rec reg w ((rec.reconcileDeleting reg).exec w) := by
  have hbefore := Pass.before_exec (Binding.unregister reg rec.attempts) w
  obtain ⟨hv, hsame⟩ := (Binding.exec_unregister hs reg rec.attempts).registrations hs
  have hsilent := @Deleting.silent rec reg w
  have htold := @Deleting.told rec reg w
  rw [reconcileDeleting_eq, Pass.exec_bind, exec_accepted]
  rcases hrun : (Binding.unregister reg rec.attempts).exec w with ⟨answer, v⟩
  simp only [hrun] at hbefore hv hsame hsilent htold ⊢
  have hfails : v.Fails → w.Fails := by
    intro h
    rwa [Fails, hbefore.failures_eq] at h
  have hfv : v.store.find? Registration (Resource.key reg) = some reg := by rw [hsame, hf]
  rw [Pass.exec_bind]
  obtain ⟨cause, e, hcause, hp⟩ | ⟨-, ⟨hstatus, hp⟩ | ⟨hne, hw, hp⟩⟩ :=
    exec_report hv hfv rfl (departure answer).1 reg.status.conditions <;> rw [hp] <;> dsimp only
  · exact .failed (hfails ⟨_, cause, hcause⟩)
  · rw [hbefore.now_eq] at hstatus
    obtain ⟨hv', e, hp⟩ | ⟨hp, hbare⟩ | ⟨hremovable, hmarked, event, s, hremarked, hp⟩ :=
      exec_finish rec (w := v.skip) hv hfv (departure answer).2 <;> rw [hp]
    · exact .failed (hfails hv')
    · exact hsilent hstatus fun h => hbare (by rw [h]; rfl)
    · refine htold (.inr ⟨?_, hmarked⟩) (callsFor_tell_registration hremarked.key_eq) fun h => ?_
      · rcases answer with e | _ | _ <;> simp [departure] at hremovable ⊢
      · exact ne_of_raised.1 (hremarked.version_eq reg h).symm
  · rw [hbefore.now_eq] at hne hp hw ⊢
    have hdue : deletingStatus reg w.now answer ≠ reg.status := hne
    generalize reported reg (departure answer).1 reg.status.conditions w.now = status at hp hw ⊢
    have hfound := find?_put_retold v.store reg status
    have hkey : Resource.key (retold reg status) = Resource.key reg := key_retold reg status
    obtain ⟨hv', e, hp⟩ | ⟨hp, -⟩ | ⟨-, -, event, s, hremarked, hp⟩ := exec_finish rec
        (w := v.tell (v.store.put (retold reg status)) (.applied (retold reg status)))
        (Sound.wrote (k := .registration) hv hw) (by rwa [hkey]) (departure answer).2 <;> rw [hp]
    · exact .failed (hfails hv')
    · refine htold (.inl hdue) (callsFor_tell_registration hkey) fun h => ?_
      exact retold_ne reg status (Option.some.inj (hfound.symm.trans h))
    · refine htold (.inl hdue) (callsFor_tell_registration (hremarked.key_eq.trans hkey))
        fun h => ?_
      rw [← hkey] at h
      exact ne_of_raised.2 (hremarked.version_eq reg h).symm

/-! ## A pass over a live registration -/

/-- Tells a registration that is bound whether it is verified. -/
def announce (rec : Reconciler) (reg : Registration) : Pass Outcome := do
  let (condition, recorded) ← rec.verified reg
  let _ ← report recorded condition reg.status.conditions
  return .done

theorem exec_announce (rec : Reconciler) (hs : w.store.Sound)
    (hf : w.store.find? Registration (Resource.key reg) = some reg) :
    (∃ cause e w', w.failures (w.calls + 1) = some cause ∧
      (rec.announce reg).exec w = (.error e, w') ∧ w'.store = w.store) ∨
    w.failures (w.calls + 1) = none ∧
      (rec.liveStatus reg w.now (w.perform (.get Domain (Binding.domainKey reg))).1 = reg.status ∧
        (rec.announce reg).exec w = (.ok .done, w.skip.skip) ∨
      rec.liveStatus reg w.now (w.perform (.get Domain (Binding.domainKey reg))).1 ≠ reg.status ∧
        ∃ w', (rec.announce reg).exec w = (.ok .done, w') ∧ w.store.Wrote Registration w'.store ∧
          w'.CallsFor (Resource.key reg) ∧ w'.store = w.store.put (retold reg
            (rec.liveStatus reg w.now (w.perform (.get Domain (Binding.domainKey reg))).1))) := by
  rw [announce, Pass.exec_bind, exec_verified, perform_get_snd]
  generalize (w.perform (.get Domain (Binding.domainKey reg))).1 = answer
  dsimp only
  rw [Pass.exec_bind]
  obtain ⟨cause, e, hcause, hp⟩ | ⟨hnone, ⟨hsame, hp⟩ | ⟨hne, hw, hp⟩⟩ :=
    exec_report (w := w.skip) hs hf (metadata_verdict rec answer) (rec.verdict reg answer).1
      reg.status.conditions <;> rw [hp]
  · exact .inl ⟨cause, e, _, hcause, rfl, rfl⟩
  · exact .inr ⟨hnone, .inl ⟨hsame, rfl⟩⟩
  · exact .inr ⟨hnone, .inr
      ⟨hne, _, rfl, hw, callsFor_tell_registration (key_retold _ _), rfl⟩⟩

theorem exists_of_contains {s : Store} {key : Key} {r : Reference}
    (h : References.contains (s.listed key) r = true) :
    ∃ d, s.find? Domain key = some d ∧ References.contains d.spec.registrations r = true := by
  rcases hd : s.find? Domain key with _ | d
  · rw [listed_of_none hd] at h
    simp [References.contains] at h
  · exact ⟨d, rfl, by rwa [listed_of_find? hd] at h⟩

/-- No domain has a blank name. -/
theorem find?_of_blank {s : Store} (hs : s.Sound) {hostname : String}
    (hblank : Text.trim hostname = "") : s.find? Domain { name := hostname } = none := by
  rcases hd : s.find? Domain { name := hostname } with _ | d
  · rfl
  · have hproper := hs.domain.proper hd
    have hname : (Resource.metadata d).name = hostname := congrArg Key.name hproper.key_eq
    have hfault := hproper.identity
    simp [identityFault?, hname, hblank] at hfault

theorem trim_ne_of_contains {s : Store} (hs : s.Sound) {hostname : String} {r : Reference}
    (h : References.contains (s.listed { name := hostname }) r = true) :
    Text.trim hostname ≠ "" := by
  obtain ⟨d, hd, -⟩ := exists_of_contains h
  intro hblank
  simp [find?_of_blank hs hblank] at hd

/-- How a pass over a live registration ends. -/
inductive Live (rec : Reconciler) (reg : Registration) (w : Port) :
    Except PassError Outcome × Port → Prop
  | failed {e : PassError} {w' : Port} (fails : w.Fails) : Live rec reg w (.error e, w')
  | marked {w' : Port} (bare : reg.metadata.hasFinalizer rec.finalizer = false)
      (changed : w'.store.find? Registration (Resource.key reg) ≠ some reg) :
      Live rec reg w (.ok .requeue, w')
  | refused {e : PassError} {w' : Port} (marked : reg.metadata.hasFinalizer rec.finalizer = true)
      (untouched : w.Untouched w') (nowhere : w.store.find? Domain (Binding.domainKey reg) = none)
      (blank : Text.trim reg.hostname = "") : Live rec reg w (.error e, w')
  | bound {answer : Except PassError Outcome} {w' : Port}
      (absent : References.contains (w.store.listed (Binding.domainKey reg))
        (Resource.reference reg) = false)
      (contains : References.contains (w'.store.listed (Binding.domainKey reg))
        (Resource.reference reg) = true)
      (named : Text.trim reg.hostname ≠ "")
      (told : w'.CallsFor (Resource.key reg)) : Live rec reg w (answer, w')
  | told {w' : Port}
      (contains : References.contains (w.store.listed (Binding.domainKey reg))
        (Resource.reference reg) = true)
      (due : rec.liveStatus reg w.now (w.skip.perform (.get Domain (Binding.domainKey reg))).1
        ≠ reg.status)
      (told : w'.CallsFor (Resource.key reg))
      (changed : w'.store.find? Registration (Resource.key reg) ≠ some reg) :
      Live rec reg w (.ok .done, w')
  | silent (marked : reg.metadata.hasFinalizer rec.finalizer = true)
      (contains : References.contains (w.store.listed (Binding.domainKey reg))
        (Resource.reference reg) = true)
      (same : rec.liveStatus reg w.now (w.skip.perform (.get Domain (Binding.domainKey reg))).1
        = reg.status) : Live rec reg w (.ok .done, w.skip.skip.skip)

theorem exec_reconcileLive (rec : Reconciler) (hs : w.store.Sound)
    (hf : w.store.find? Registration (Resource.key reg) = some reg) :
    Live rec reg w ((rec.reconcileLive reg).exec w) := by
  rw [reconcileLive, Pass.exec_bind, Pass.exec_lift]
  rcases hmarked : reg.metadata.hasFinalizer rec.finalizer with _ | _
  · obtain ⟨hfails, e, hp⟩ | ⟨next, event, s, hremarked, hp⟩ := run_ensure hs hf hmarked <;> rw [hp]
    · exact .failed hfails
    · exact .marked hmarked fun h => ne_of_raised.1 (hremarked.version_eq reg h).symm
  · rw [run_ensure_of_marked hmarked]
    change Live rec reg w ((Binding.register reg rec.attempts >>= fun _ => rec.announce reg).exec w)
    rw [Pass.exec_bind]
    have hout := Binding.exec_register hs reg rec.attempts
    rcases hrun : (Binding.register reg rec.attempts).exec w with ⟨answer, v⟩
    rw [hrun] at hout
    cases hout with
    | refused untouched not_done _ reason =>
      rcases answer with e | _
      · rcases reason with hfails | ⟨hnowhere, hblank⟩
        · exact .failed hfails
        · exact .refused hmarked untouched hnowhere hblank
      · exact absurd rfl not_done
    | listed contains =>
      obtain ⟨cause, e, w', hcause, hp, -⟩ | ⟨-, ⟨hsame, hp⟩ | ⟨hne, w', hp, -, hcalls, hstore⟩⟩ :=
        exec_announce rec (w := w.skip) hs hf <;> dsimp only <;> rw [hp]
      · exact .failed ⟨_, cause, hcause⟩
      · exact .silent hmarked contains hsame
      · refine .told contains hne hcalls fun h => ?_
        rw [hstore] at h
        exact retold_ne reg _ (Option.some.inj ((find?_put_retold _ reg _).symm.trans h))
    | written absent relisted told =>
      have hv : v.store.Sound := Sound.wrote (k := .domain) hs relisted.wrote
      have hfv : v.store.find? Registration (Resource.key reg) = some reg := by
        rw [relisted.registration_eq, hf]
      have hcontains : References.contains (v.store.listed (Binding.domainKey reg))
          (Resource.reference reg) = true := by
        change References.contains (v.store.listed { name := reg.hostname }) _ = true
        rw [relisted.listed_eq]
        exact References.contains_append_self
      have hnamed := trim_ne_of_contains hv hcontains
      have hstays : ((rec.announce reg).exec v).2.store.listed (Binding.domainKey reg)
          = v.store.listed (Binding.domainKey reg) := by
        obtain ⟨-, e, w', -, hp, hstore⟩ | ⟨-, ⟨-, hp⟩ | ⟨-, w', hp, hw, -⟩⟩ :=
          exec_announce rec hv hfv <;> rw [hp]
        · rw [hstore]
        · rfl
        · exact listed_of_wrote hw _
      have hlater := told.later (Pass.before_exec (rec.announce reg) v)
      rw [← hstays] at hcontains
      dsimp only
      generalize (rec.announce reg).exec v = out at hcontains hlater ⊢
      obtain ⟨answer, w'⟩ := out
      exact .bound absent hcontains hnamed hlater

/-! ## Settled registrations -/

/-- A pass over the registration of a key finds nothing to do, or nothing that can be done. -/
inductive Settled (rec : Reconciler) (key : Key) (now : Time) (s : Store) : Prop
  | missing (none : s.find? Registration key = none)
  | released {reg : Registration} (found : s.find? Registration key = some reg)
      (deleting : reg.metadata.isDeleting = true)
      (absent :
        References.contains (s.listed (Binding.domainKey reg)) (Resource.reference reg) = false)
      (bare : reg.metadata.hasFinalizer rec.finalizer = false)
      (same : deletingStatus reg now (.ok false) = reg.status)
  | refused {reg : Registration} (found : s.find? Registration key = some reg)
      (live : reg.metadata.isDeleting = false)
      (marked : reg.metadata.hasFinalizer rec.finalizer = true)
      (nowhere : s.find? Domain (Binding.domainKey reg) = none)
      (blank : Text.trim reg.hostname = "")
  | verified {reg : Registration} {d : Domain} (found : s.find? Registration key = some reg)
      (live : reg.metadata.isDeleting = false)
      (marked : reg.metadata.hasFinalizer rec.finalizer = true)
      (domain : s.find? Domain (Binding.domainKey reg) = some d)
      (contains : References.contains d.spec.registrations (Resource.reference reg) = true)
      (same : rec.liveStatus reg now (.ok d) = reg.status)

variable {key : Key} {now : Time} {s : Store}

theorem exec_reconcile_of_none (hs : w.store.Sound) (h : w.failures w.calls = none)
    (hnone : w.store.find? Registration key = none) :
    (rec.reconcile key).exec w = (.ok .done, w.skip) := by
  rw [reconcile, Pass.exec_bind, Pass.exec_ask, perform_get hs.registration h, hnone]
  rfl

theorem exec_reconcile_of_found (hs : w.store.Sound) (h : w.failures w.calls = none)
    (hf : w.store.find? Registration key = some reg) :
    (rec.reconcile key).exec w = (if reg.metadata.isDeleting then rec.reconcileDeleting reg
      else rec.reconcileLive reg).exec w.skip := by
  rw [reconcile, Pass.exec_bind, Pass.exec_ask, perform_get hs.registration h, hf]
  rfl

theorem settled_deleting_iff (hf : s.find? Registration key = some reg)
    (hdeleting : reg.metadata.isDeleting = true) : rec.Settled key now s ↔
      References.contains (s.listed (Binding.domainKey reg)) (Resource.reference reg) = false ∧
      reg.metadata.hasFinalizer rec.finalizer = false ∧
      deletingStatus reg now (.ok false) = reg.status := by
  refine ⟨fun h => ?_, fun ⟨absent, bare, same⟩ => .released hf hdeleting absent bare same⟩
  cases h with
  | missing none => simp [hf] at none
  | released found _ absent bare same =>
    obtain rfl := Option.some.inj (hf.symm.trans found)
    exact ⟨absent, bare, same⟩
  | refused found live | verified found live =>
    obtain rfl := Option.some.inj (hf.symm.trans found)
    simp [live] at hdeleting

theorem settled_live_iff (hf : s.find? Registration key = some reg)
    (hlive : reg.metadata.isDeleting = false) : rec.Settled key now s ↔
      reg.metadata.hasFinalizer rec.finalizer = true ∧
      (s.find? Domain (Binding.domainKey reg) = none ∧ Text.trim reg.hostname = "" ∨
      ∃ d, s.find? Domain (Binding.domainKey reg) = some d ∧
        References.contains d.spec.registrations (Resource.reference reg) = true ∧
        rec.liveStatus reg now (.ok d) = reg.status) := by
  refine ⟨fun h => ?_, fun ⟨marked, h⟩ => ?_⟩
  · cases h with
    | missing none => simp [hf] at none
    | released found deleting =>
      obtain rfl := Option.some.inj (hf.symm.trans found)
      simp [hlive] at deleting
    | refused found _ marked nowhere blank =>
      obtain rfl := Option.some.inj (hf.symm.trans found)
      exact ⟨marked, .inl ⟨nowhere, blank⟩⟩
    | verified found _ marked domain contains same =>
      obtain rfl := Option.some.inj (hf.symm.trans found)
      exact ⟨marked, .inr ⟨_, domain, contains, same⟩⟩
  · obtain ⟨nowhere, blank⟩ | ⟨d, domain, contains, same⟩ := h
    · exact .refused hf hlive marked nowhere blank
    · exact .verified hf hlive marked domain contains same

theorem perform_domain (hs : w.store.Sound) {d : Domain} (hd : w.store.find? Domain key = some d)
    (h : w.failures w.calls = none) : (w.perform (.get Domain key)).1 = .ok d := by
  rw [perform_get hs.domain h, hd]
  rfl

theorem steady_deleting (hs : s.Sound) (hf : s.find? Registration (Resource.key reg) = some reg)
    (hdeleting : reg.metadata.isDeleting = true) :
    ((rec.reconcileDeleting reg).exec (calm s now).skip).2.store = s
      ↔ rec.Settled (Resource.key reg) now s := by
  rw [settled_deleting_iff hf hdeleting]
  have hcalm : ¬(calm s now).skip.Fails := not_fails_calm s now
  have hout := Binding.exec_unregister (w := (calm s now).skip) hs reg rec.attempts
  have hend := exec_reconcileDeleting rec (w := (calm s now).skip) hs hf
  generalize (rec.reconcileDeleting reg).exec (calm s now).skip = ended at hend ⊢
  rcases hrun : (Binding.unregister reg rec.attempts).exec (calm s now).skip with ⟨answer, v⟩
  rw [hrun] at hout
  cases hend with
  | failed fails => exact absurd fails hcalm
  | told due told changed =>
    refine iff_of_false (fun h => changed (h ▸ hf)) fun ⟨absent, bare, same⟩ => ?_
    rw [hrun] at due
    cases hout with
    | failed _ fails => exact hcalm fails
    | unlisted =>
      rcases due with hne | ⟨-, hmarked⟩
      · exact hne same
      · simp [bare] at hmarked
    | written contains =>
      rw [show (calm s now).skip.store = s from rfl, absent] at contains
      simp at contains
  | silent same bare =>
    rw [hrun] at same bare ⊢
    cases hout with
    | failed _ fails => exact absurd fails hcalm
    | unlisted absent => exact iff_of_true rfl ⟨absent, bare rfl, same⟩
    | written contains relisted =>
      refine iff_of_false (fun h => ?_) fun ⟨absent, _⟩ => ?_
      · have hgone := relisted.listed_eq
        rw [show v.store = s from h] at hgone
        exact References.remove_ne_iff.2 contains hgone.symm
      · rw [show (calm s now).skip.store = s from rfl, absent] at contains
        simp at contains

theorem steady_live (hs : s.Sound) (hf : s.find? Registration (Resource.key reg) = some reg)
    (hlive : reg.metadata.isDeleting = false) :
    ((rec.reconcileLive reg).exec (calm s now).skip).2.store = s
      ↔ rec.Settled (Resource.key reg) now s := by
  rw [settled_live_iff hf hlive]
  have hcalm : ¬(calm s now).skip.Fails := not_fails_calm s now
  have hend := exec_reconcileLive rec (w := (calm s now).skip) hs hf
  generalize (rec.reconcileLive reg).exec (calm s now).skip = ended at hend ⊢
  cases hend with
  | failed fails => exact absurd fails hcalm
  | marked bare changed =>
    refine iff_of_false (fun h => changed (h ▸ hf)) fun ⟨marked, _⟩ => ?_
    simp [bare] at marked
  | refused marked untouched nowhere blank =>
    exact iff_of_true untouched.store_eq ⟨marked, .inl ⟨nowhere, blank⟩⟩
  | bound absent contains named =>
    have hlisted : (calm s now).skip.store.listed (Binding.domainKey reg)
      = s.listed (Binding.domainKey reg) := rfl
    rw [hlisted] at absent
    refine iff_of_false (fun h => ?_) fun ⟨_, h⟩ => ?_
    · rw [h, absent] at contains
      simp at contains
    · obtain ⟨-, blank⟩ | ⟨d, domain, hcontains, -⟩ := h
      · exact named blank
      · rw [listed_of_find? domain, hcontains] at absent
        simp at absent
  | told contains due _ changed =>
    obtain ⟨d, domain, -⟩ := exists_of_contains (s := s) contains
    rw [perform_domain (w := (calm s now).skip.skip) hs domain rfl] at due
    refine iff_of_false (fun h => changed (h ▸ hf)) fun ⟨_, h⟩ => ?_
    obtain ⟨nowhere, -⟩ | ⟨d', domain', -, same⟩ := h
    · simp [nowhere] at domain
    · obtain rfl := Option.some.inj (domain.symm.trans domain')
      exact due same
  | silent marked contains same =>
    obtain ⟨d, domain, hcontains⟩ := exists_of_contains (s := s) contains
    rw [perform_domain (w := (calm s now).skip.skip) hs domain rfl] at same
    exact iff_of_true rfl ⟨marked, .inr ⟨d, domain, hcontains, same⟩⟩

/-- A pass on which no call fails leaves the store as it is exactly when its registration is
settled. -/
theorem steady_iff_settled (hs : s.Sound) :
    ((rec.reconcile key).exec (calm s now)).2.store = s ↔ rec.Settled key now s := by
  rcases hf : s.find? Registration key with _ | reg
  · rw [exec_reconcile_of_none (w := calm s now) hs rfl hf]
    exact iff_of_true rfl (.missing hf)
  · obtain rfl := (hs.registration.proper hf).key_eq
    rw [exec_reconcile_of_found (w := calm s now) hs rfl hf]
    rcases hdeleting : reg.metadata.isDeleting with _ | _
    · exact steady_live hs hf hdeleting
    · exact steady_deleting hs hf hdeleting

end Reconciler

end Registrar
