import Registrar.Proofs.Passes.Settled

/-!
# What a pass that is done leaves behind

No other pass is scheduled after one that is done, so it has to have left nothing to do, or to have
written something that calls for another pass. It has, unless a read failed and the status already
told what the pass then tells (`Forgets`): nothing is written then, and what is left to do stays
undone.
-/

namespace Registrar

open Resource Parts Store

namespace Reconciler

open Port

variable {rec : Reconciler} {reg : Registration} {w w' : Port} {key : Key} {now : Time}
  {store : Store} {failures : Nat → Option StoreError}

/-- A pass over a deleting registration leaves it bound, and the status told so before. -/
inductive LeavesBound (rec : Reconciler) (reg : Registration) (w : Port) : Prop
  | failed {e : PassError}
      (fails : ((Binding.unregister reg rec.attempts).exec w).1 = .error e)
      (same : deletingStatus reg w.now (.error e) = reg.status)
  | misled (answered : ((Binding.unregister reg rec.attempts).exec w).1 = .ok false)
      (contains : References.contains (((Binding.unregister reg rec.attempts).exec w).2.store.listed
        (Binding.domainKey reg)) (Resource.reference reg) = true)
      (bare : reg.metadata.hasFinalizer rec.finalizer = false)
      (same : deletingStatus reg w.now (.ok false) = reg.status)

/-- A pass over a live registration fails to read its domain, and tells what was told before. -/
structure LeavesUnread (rec : Reconciler) (reg : Registration) (w : Port) (e : StoreError) :
    Prop where
  marked : reg.metadata.hasFinalizer rec.finalizer = true
  contains :
    References.contains (w.store.listed (Binding.domainKey reg)) (Resource.reference reg) = true
  fails : w.failures (w.calls + 1) = some e
  same : rec.liveStatus reg w.now (.error e) = reg.status

/-- A pass ends without an error, but a call failed and something is left to do that was not told.
-/
inductive Forgets (rec : Reconciler) (key : Key) (w : Port) : Prop
  | unread {e : StoreError} (fails : w.failures w.calls = some e)
      (unsettled : ¬rec.Settled key w.now w.store)
  | deleting {reg : Registration} (read : w.failures w.calls = none)
      (found : w.store.find? Registration key = some reg)
      (deleting : reg.metadata.isDeleting = true)
      (bound : LeavesBound rec reg w.skip)
  | live {reg : Registration} {e : StoreError} (read : w.failures w.calls = none)
      (found : w.store.find? Registration key = some reg) (live : reg.metadata.isDeleting = false)
      (unread : LeavesUnread rec reg w.skip e) (unsettled : ¬rec.Settled key w.now w.store)

theorem forgets_of_found_iff (hread : w.failures w.calls = none)
    (hf : w.store.find? Registration key = some reg) : rec.Forgets key w ↔
      reg.metadata.isDeleting = true ∧ LeavesBound rec reg w.skip ∨
      reg.metadata.isDeleting = false ∧ (∃ e, LeavesUnread rec reg w.skip e) ∧
        ¬rec.Settled key w.now w.store := by
  refine ⟨fun h => ?_, fun h => ?_⟩
  · cases h with
    | unread fails => simp [hread] at fails
    | deleting _ found deleting bound =>
      obtain rfl := Option.some.inj (hf.symm.trans found)
      exact .inl ⟨deleting, bound⟩
    | live _ found live unread unsettled =>
      obtain rfl := Option.some.inj (hf.symm.trans found)
      exact .inr ⟨live, ⟨_, unread⟩, unsettled⟩
  · obtain ⟨hdeleting, hbound⟩ | ⟨hlive, ⟨e, hunread⟩, hunsettled⟩ := h
    · exact .deleting hread hf hdeleting hbound
    · exact .live hread hf hlive hunread hunsettled

theorem exec_reconcile_of_fails {e : StoreError} (hfails : w.failures w.calls = some e)
    (h : (rec.reconcile key).exec w = (.ok .done, w')) : w' = w.skip := by
  rw [reconcile, Pass.exec_bind, Pass.exec_ask, perform_fails hfails] at h
  dsimp only at h
  split at h
  · exact (Prod.mk.inj h).2.symm
  · simp at h

theorem not_callsFor (h : w.told = []) : ¬w.CallsFor key := by
  rintro ⟨e, he, -⟩
  simp [h] at he

theorem deletingStatus_ne {e : PassError} (h : deletingStatus reg now (.error e) = reg.status) :
    deletingStatus reg now (.ok false) ≠ reg.status := by
  intro h'
  have hconditions := congrArg Registration.Status.conditions (h'.trans h.symm)
  simp [deletingStatus, reported, departure, unknown, Condition.merge, Condition.Status.ofBool]
    at hconditions

/-- A pass that is done leads to a sound store, if it has told nothing that calls for another one.
-/
theorem callsFor_or_sound (hs : w.store.Sound) (h : (rec.reconcile key).exec w = (.ok .done, w')) :
    w'.CallsFor key ∨ w'.store.Sound := by
  rcases hfails : w.failures w.calls with _ | e
  · rcases hf : w.store.find? Registration key with _ | reg
    · rw [exec_reconcile_of_none hs hfails hf] at h
      obtain ⟨-, rfl⟩ := Prod.mk.inj h
      exact .inr hs
    · obtain rfl := (hs.registration.proper hf).key_eq
      rw [exec_reconcile_of_found hs hfails hf] at h
      split at h
      · have hend := exec_reconcileDeleting rec (w := w.skip) hs hf
        rw [h] at hend
        cases hend with
        | told _ told => exact .inl told
        | silent =>
          exact .inr
            ((Binding.exec_unregister (w := w.skip) hs reg rec.attempts).registrations hs).1
      · have hend := exec_reconcileLive rec (w := w.skip) hs hf
        rw [h] at hend
        cases hend with
        | bound _ _ _ told | told _ _ told => exact .inl told
        | silent => exact .inr hs
  · obtain rfl := exec_reconcile_of_fails hfails h
    exact .inr hs

theorem done_deleting_iff (hs : w.store.Sound) (htold : w.told = [])
    (hf : w.store.find? Registration (Resource.key reg) = some reg)
    (hdeleting : reg.metadata.isDeleting = true)
    (h : (rec.reconcileDeleting reg).exec w = (.ok .done, w')) :
    (w'.CallsFor (Resource.key reg) ∨ rec.Settled (Resource.key reg) w.now w'.store)
      ↔ ¬LeavesBound rec reg w := by
  have hout := Binding.exec_unregister hs reg rec.attempts
  have hend := exec_reconcileDeleting rec hs hf
  rw [h] at hend
  cases hend with
  | told due told =>
    refine iff_of_true (.inl told) fun hbound => ?_
    cases hbound with
    | failed fails same => simp [fails, same] at due
    | misled answered _ bare same => simp [answered, same, bare] at due
  | silent same bare =>
    have hfv := (hout.registrations hs).2 (Resource.key reg)
    rcases hrun : (Binding.unregister reg rec.attempts).exec w with ⟨answer, v⟩
    simp only [hrun, hf] at hout same bare hfv ⊢
    change (v.CallsFor _ ∨ rec.Settled _ w.now v.store) ↔ _
    rw [settled_deleting_iff hfv hdeleting]
    rcases answer with e | bound
    · cases hout with
      | failed untouched =>
        refine iff_of_false ?_ (not_not.2 (.failed (by rw [hrun]) same))
        rintro (hcalls | ⟨-, -, hsame⟩)
        · exact not_callsFor (untouched.told_eq.trans htold) hcalls
        · exact deletingStatus_ne same hsame
    · obtain rfl : bound = false := by
        cases hout with
        | failed _ _ not_bound => simpa using not_bound
        | unlisted | written => rfl
      rcases hcontains : References.contains (v.store.listed (Binding.domainKey reg))
        (Resource.reference reg) with _ | _
      · refine iff_of_true (.inr ⟨rfl, bare rfl, same⟩) fun hbound => ?_
        cases hbound with
        | failed fails => simp [hrun] at fails
        | misled _ contains => simp [hrun, hcontains] at contains
      · refine iff_of_false ?_
          (not_not.2 (.misled (by rw [hrun]) (by rw [hrun, hcontains]) (bare rfl) same))
        rintro (hcalls | ⟨habsent, -⟩)
        · cases hout with
          | failed untouched => exact not_callsFor (untouched.told_eq.trans htold) hcalls
          | unlisted absent => exact not_callsFor (w := w.skip) htold hcalls
          | written _ relisted =>
            rw [relisted.listed_eq, References.not_contains_remove_self] at hcontains
            simp at hcontains
        · simp at habsent

theorem done_live_iff (hs : w.store.Sound) (htold : w.told = [])
    (hf : w.store.find? Registration (Resource.key reg) = some reg)
    (hlive : reg.metadata.isDeleting = false)
    (h : (rec.reconcileLive reg).exec w = (.ok .done, w')) :
    (w'.CallsFor (Resource.key reg) ∨ rec.Settled (Resource.key reg) w.now w'.store)
      ↔ ¬((∃ e, LeavesUnread rec reg w e) ∧ ¬rec.Settled (Resource.key reg) w.now w.store) := by
  have hend := exec_reconcileLive rec hs hf
  rw [h] at hend
  cases hend with
  | bound absent _ _ told =>
    refine iff_of_true (.inl told) fun ⟨⟨e, hunread⟩, _⟩ => ?_
    rw [hunread.contains] at absent
    simp at absent
  | told _ due told =>
    refine iff_of_true (.inl told) fun ⟨⟨e, hunread⟩, _⟩ => due ?_
    rw [perform_fails (w := w.skip) hunread.fails]
    exact hunread.same
  | silent marked contains same =>
    rcases hfails : w.failures (w.calls + 1) with _ | e
    · obtain ⟨d, domain, hcontains⟩ := exists_of_contains contains
      rw [perform_domain (w := w.skip) hs domain hfails] at same
      refine iff_of_true (.inr (.verified hf hlive marked domain hcontains same))
        fun ⟨⟨e, hunread⟩, _⟩ => ?_
      rw [hunread.fails] at hfails
      simp at hfails
    · rw [perform_fails (w := w.skip) hfails] at same
      have hunread : ∃ e, LeavesUnread rec reg w e := ⟨e, marked, contains, hfails, same⟩
      have hcalls : ¬w.skip.skip.skip.CallsFor (Resource.key reg) := not_callsFor htold
      rw [or_iff_right hcalls, not_and, imp_iff_right hunread, not_not]
      rfl

theorem done_iff (hs : w.store.Sound) (htold : w.told = [])
    (h : (rec.reconcile key).exec w = (.ok .done, w')) :
    (w'.CallsFor key ∨ rec.Settled key w.now w'.store) ↔ ¬rec.Forgets key w := by
  rcases hfails : w.failures w.calls with _ | e
  · rcases hf : w.store.find? Registration key with _ | reg
    · rw [exec_reconcile_of_none hs hfails hf] at h
      obtain ⟨-, rfl⟩ := Prod.mk.inj h
      refine iff_of_true (.inr (.missing hf)) fun hforgets => ?_
      cases hforgets with
      | unread fails => simp [hfails] at fails
      | deleting _ found | live _ found => simp [hf] at found
    · obtain rfl := (hs.registration.proper hf).key_eq
      rw [exec_reconcile_of_found hs hfails hf] at h
      rw [forgets_of_found_iff hfails hf]
      rcases hdeleting : reg.metadata.isDeleting with _ | _ <;> rw [hdeleting] at h
      · refine (done_live_iff (w := w.skip) hs htold hf hdeleting h).trans (not_congr ?_)
        simp [skip]
      · refine (done_deleting_iff (w := w.skip) hs htold hf hdeleting h).trans (not_congr ?_)
        simp
  · obtain rfl := exec_reconcile_of_fails hfails h
    rw [or_iff_right (not_callsFor (w := w.skip) htold)]
    refine ⟨fun hsettled hforgets => ?_, fun h => ?_⟩
    · cases hforgets with
      | unread _ unsettled => exact unsettled hsettled
      | deleting read | live read => simp [hfails] at read
    · exact not_not.1 fun hunsettled => h (.unread hfails hunsettled)

/-- A pass that is done has told something that calls for another one, or a further pass without
failures would leave the store as it is, unless the pass forgets work. -/
theorem done_iff_not_forgets (hs : store.Reachable)
    (h : (rec.reconcile key).exec { store, now, failures } = (.ok .done, w')) :
    (w'.CallsFor key ∨ ((rec.reconcile key).exec (calm w'.store now)).2.store = w'.store)
      ↔ ¬rec.Forgets key { store, now, failures } := by
  have hsound := sound_of_reachable hs
  rw [← done_iff (w := { store, now, failures }) hsound rfl h]
  rcases callsFor_or_sound (w := { store, now, failures }) hsound h with hcalls | hw'
  · exact iff_of_true (.inl hcalls) (.inl hcalls)
  · rw [steady_iff_settled hw']

/-- A registration that holds the finalizer from the start. -/
def leaving : Registration :=
  { Registration.named "team" "gone" with metadata.finalizers := [({} : Reconciler).finalizer] }

def leavingKey : Key where
  ns? := some "team"
  name := "gone"

def outage : StoreError where
  cause := .internal "down"

/-- The read of the domain fails in a pass over a deleting registration. -/
def atSecond (n : Nat) : Option StoreError :=
  if n = 1 then some outage else none

/-- The registration is created, bound and deleted. -/
def parting : List (Request × Time) := [
  (.create .registration leaving, .epoch),
  (.create .domain { Domain.named "gone" with
    spec.registrations := [Resource.reference (stamped leaving (Uid.nth 1) .epoch)] }, .epoch),
  (.delete .registration leavingKey, .epoch)]

/-- The registration has been told that it cannot be released. -/
def repeated : List (Request × Time) :=
  parting ++ [(.updateStatus .registration { leaving with
    metadata.resourceVersion := 2
    status.conditions := [{ unknown .accepted (.ofStore outage "Reading domain gone") with
      since := some .epoch }] }, .epoch)]

/-- A pass that fails to release a registration for the first time tells so, and forgets nothing. -/
theorem first_outage_remembered :
    (empty.after parting).Reachable ∧
    (∃ w', (({} : Reconciler).reconcile leavingKey).exec
      { store := empty.after parting, now := .epoch, failures := atSecond } = (.ok .done, w')) ∧
    ¬({} : Reconciler).Forgets leavingKey
      { store := empty.after parting, now := .epoch, failures := atSecond } := by
  have hreach : (empty.after parting).Reachable := ⟨parting, rfl⟩
  have hdone : ((({} : Reconciler).reconcile leavingKey).exec
      { store := empty.after parting, now := .epoch, failures := atSecond }).1 = .ok .done := by
    decide +kernel
  have hcalls : ∃ e ∈ ((({} : Reconciler).reconcile leavingKey).exec
      { store := empty.after parting, now := .epoch, failures := atSecond }).2.told,
        leavingKey ∈ Controller.calledFor e := by
    decide +kernel
  exact ⟨hreach, ⟨_, Pass.exec_eq hdone⟩,
    (done_iff_not_forgets hreach (Pass.exec_eq hdone)).1 (.inl hcalls)⟩

/-- A pass may be done although it has told nothing and leaves a deleting registration bound. -/
theorem second_outage_forgotten :
    ¬ ∀ (rec : Reconciler) (key : Key) (store : Store) (now : Time)
      (failures : Nat → Option StoreError) (w' : Port), store.Reachable →
      (rec.reconcile key).exec { store, now, failures } = (.ok .done, w') →
      w'.CallsFor key ∨ ((rec.reconcile key).exec (calm w'.store now)).2.store = w'.store := by
  intro h
  have hdone : ((({} : Reconciler).reconcile leavingKey).exec
      { store := empty.after repeated, now := .epoch, failures := atSecond }).1 = .ok .done := by
    decide +kernel
  have htold : ((({} : Reconciler).reconcile leavingKey).exec
      { store := empty.after repeated, now := .epoch, failures := atSecond }).2.told = [] := by
    decide +kernel
  have hbound : ((({} : Reconciler).reconcile leavingKey).exec
      { store := empty.after repeated, now := .epoch, failures := atSecond }).2.store.listed
        { name := "gone" } ≠ [] := by
    decide +kernel
  have hreleased : ((({} : Reconciler).reconcile leavingKey).exec
      (calm ((({} : Reconciler).reconcile leavingKey).exec
        { store := empty.after repeated, now := .epoch, failures := atSecond }).2.store
          .epoch)).2.store.listed { name := "gone" } = [] := by
    decide +kernel
  rcases h {} leavingKey _ .epoch atSecond _ ⟨repeated, rfl⟩ (Pass.exec_eq hdone) with
    hcalls | hsteady
  · exact not_callsFor htold hcalls
  · rw [hsteady] at hreleased
    exact hbound hreleased

end Reconciler

end Registrar
