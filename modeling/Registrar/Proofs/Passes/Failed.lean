import Registrar.Proofs.Passes.Done
import Registrar.Proofs.Passes.Visits

/-!
# Passes that fail

A pass over a live registration that fails leaves it as it was, for the status is written last
(`find?_of_live_failed`). Over a deleting one the finalizer comes off after the status has been
written, so such a pass fails with a new status told just when it is the first to tell that the
registration is released and then cannot take the finalizer off (`status_kept_iff_not_oversteps`).
-/

namespace Registrar

open Resource Parts Store

/-- The status of the registration of a key. -/
def Store.status? (s : Store) (key : Key) : Option Registration.Status :=
  (s.find? Registration key).map (·.status)

namespace Reconciler

open Port

variable {rec : Reconciler} {w : Port} {reg : Registration} {s : Store}

/-- A visit reads a deleting registration that holds the finalizer, releases it, tells so where it
was not told before, and fails to take the finalizer off. -/
def Oversteps (rec : Reconciler) (s : Store) (v : Visit) : Prop :=
  ∃ reg u, v.failures 0 = none ∧ s.find? Registration v.key = some reg ∧
    reg.metadata.isDeleting = true ∧ reg.metadata.hasFinalizer rec.finalizer = true ∧
    (Binding.unregister reg rec.attempts).exec (v.port s).skip = (.ok false, u) ∧
    deletingStatus reg v.now (.ok false) ≠ reg.status ∧
    v.failures u.calls = none ∧ v.failures (u.calls + 1) ≠ none

/-- A pass over a live registration that fails has not changed it. -/
theorem find?_of_live_failed (hs : w.store.Sound)
    (hf : w.store.find? Registration (Resource.key reg) = some reg) {e : PassError}
    (he : ((rec.reconcileLive reg).exec w).1 = .error e) :
    ((rec.reconcileLive reg).exec w).2.store.find? Registration (Resource.key reg) = some reg := by
  rcases hmarked : reg.metadata.hasFinalizer rec.finalizer with _ | _
  · rw [reconcileLive, Pass.exec_bind, Pass.exec_lift] at he ⊢
    obtain ⟨-, e, hp⟩ | ⟨next, event, s, -, hp⟩ := run_ensure hs hf hmarked <;> rw [hp] at he ⊢
    · exact hf
    · simp at he
  · rw [reconcileLive_of_marked hmarked, Pass.exec_bind] at he ⊢
    have hbound := confined_register rec.finalizer hs reg rec.attempts
    have hfv := (Binding.exec_register hs reg rec.attempts).registrations (Resource.key reg)
    rw [hf] at hfv
    generalize (Binding.register reg rec.attempts).exec w = out at hbound hfv he ⊢
    obtain ⟨e' | _, v⟩ := out
    · exact hfv
    · obtain ⟨cause, e, w', -, hp, hstore⟩ | ⟨-, ⟨-, hp⟩ | ⟨-, w', hp, -⟩⟩ :=
        exec_announce rec hbound.sound hfv <;> dsimp only at he ⊢ <;> rw [hp] at he ⊢
      · rw [hstore]
        exact hfv
      · simp at he
      · simp at he

theorem failed_release_iff {marker : String} (hs : w.store.Sound)
    (hf : w.store.find? Registration (Resource.key reg) = some reg)
    (hmarked : reg.metadata.hasFinalizer marker = true) :
    (∃ e, ((Finalizer.release reg marker).run access w).1 = .error e)
      ↔ w.failures w.calls ≠ none := by
  have hrun : ((Finalizer.release reg marker).run access w).1 = (w.perform (.patch reg
      { reg with metadata.finalizers := reg.metadata.finalizers.filter (· != marker) })).1.map
        fun _ => true := by
    rw [Finalizer.release, show (Resource.metadata reg).hasFinalizer marker = true from hmarked]
    rfl
  rw [hrun]
  rcases hfails : w.failures w.calls with _ | e
  · have hne : reg.metadata.finalizers.filter (· != marker) ≠ reg.metadata.finalizers := by
      rw [Metadata.hasFinalizer, List.contains_iff_mem] at hmarked
      simp only [ne_eq, List.filter_eq_self, not_forall]
      exact ⟨marker, hmarked, by simp⟩
    obtain ⟨next, event, t, hp, -⟩ := patch_finalizers hs hf hne
    simp [perform_answers hfails, Store.perform, hp, Except.map]
  · simp [perform_fails hfails, Except.map]

/-- A registration that may go keeps the finalizer just when the call fails that takes it off. -/
theorem failed_finish_iff (rec : Reconciler) (hs : w.store.Sound)
    (hf : w.store.find? Registration (Resource.key reg) = some reg) (removable : Bool) :
    (∃ e, ((rec.finish reg removable).exec w).1 = .error e) ↔
      removable = true ∧ reg.metadata.hasFinalizer rec.finalizer = true ∧
        w.failures w.calls ≠ none := by
  rcases removable with _ | _
  · simp [finish]
  · rcases hmarked : reg.metadata.hasFinalizer rec.finalizer with _ | _
    · simp [finish, Pass.exec_bind, Pass.exec_lift, run_release_of_bare hmarked]
    · rw [← failed_release_iff hs hf hmarked, finish, if_pos rfl, Pass.exec_bind, Pass.exec_lift]
      rcases (Finalizer.release reg rec.finalizer).run access w with ⟨e | _, w'⟩ <;> simp

theorem store_of_finish_failed (rec : Reconciler) (hs : w.store.Sound)
    (hf : w.store.find? Registration (Resource.key reg) = some reg) {removable : Bool}
    {e : PassError} (he : ((rec.finish reg removable).exec w).1 = .error e) :
    ((rec.finish reg removable).exec w).2.store = w.store := by
  obtain ⟨-, e', hp⟩ | ⟨hp, -⟩ | ⟨-, -, event, s, -, hp⟩ := exec_finish rec hs hf removable <;>
    rw [hp] at he ⊢
  · rfl
  · simp at he

/-- What is told of a deleting registration has changed when the pass fails exactly if it was taken
and the finalizer does not come off. -/
theorem overstepped_finish_iff (rec : Reconciler) (hs : w.store.Sound)
    (hf : w.store.find? Registration (Resource.key reg) = some reg) (c : Condition)
    (removable : Bool) {out : Except PassError Outcome × Port}
    (hout : (report reg c reg.status.conditions >>= (rec.finish · removable)).exec w = out) :
    (∃ e, out.1 = .error e ∧ out.2.store.status? (Resource.key reg) ≠ some reg.status) ↔
      removable = true ∧ reg.metadata.hasFinalizer rec.finalizer = true ∧
        reported reg c reg.status.conditions w.now ≠ reg.status ∧
        w.failures w.calls = none ∧ w.failures (w.calls + 1) ≠ none := by
  have hkept : w.store.status? (Resource.key reg) = some reg.status := by
    rw [status?, hf]
    rfl
  rw [Pass.exec_bind] at hout
  obtain ⟨cause, e, hcause, hp⟩ | ⟨hnone, ⟨hsame, hp⟩ | ⟨hne, hw, hp⟩⟩ :=
    exec_report hs hf rfl c reg.status.conditions <;> rw [hp] at hout <;> subst hout
  · refine iff_of_false (fun ⟨_, _, hchanged⟩ => hchanged hkept) fun h => ?_
    simp [hcause] at h
  · refine iff_of_false (fun ⟨_, he, hchanged⟩ => hchanged ?_) fun h => h.2.2.1 hsame
    rw [store_of_finish_failed rec (w := w.skip) hs hf he]
    exact hkept
  · generalize reported reg c reg.status.conditions w.now = status at hw hne ⊢
    have hkey : Resource.key (retold reg status) = Resource.key reg := key_retold reg status
    have hfound : (w.store.put (retold reg status)).find? Registration
        (Resource.key (retold reg status)) = some (retold reg status) :=
      find?_put_self
    have hsound : (w.store.put (retold reg status)).Sound :=
      Sound.wrote (k := .registration) hs hw
    have hiff := failed_finish_iff rec (w := w.tell (w.store.put (retold reg status))
      (.applied (retold reg status))) hsound hfound removable
    refine Iff.trans ⟨fun ⟨e, he, _⟩ => hiff.1 ⟨e, he⟩, fun h => ?_⟩
      ⟨fun h => ⟨h.1, h.2.1, hne, hnone, h.2.2⟩, fun h => ⟨h.1, h.2.1, h.2.2.2.2⟩⟩
    obtain ⟨e, he⟩ := hiff.2 h
    have htold : (w.store.put (retold reg status)).status? (Resource.key reg) = some status := by
      rw [status?, find?_put_retold]
      rfl
    have hstore := congrArg (·.status? (Resource.key reg))
      (store_of_finish_failed rec hsound hfound he)
    exact ⟨e, he, fun hkept => hne (Option.some.inj (htold.symm.trans (hstore.symm.trans hkept)))⟩

theorem overstepped_deleting_iff (rec : Reconciler) (hs : w.store.Sound)
    (hf : w.store.find? Registration (Resource.key reg) = some reg)
    {out : Except PassError Outcome × Port} (hout : (rec.reconcileDeleting reg).exec w = out) :
    (∃ e, out.1 = .error e ∧ out.2.store.status? (Resource.key reg) ≠ some reg.status) ↔
      ∃ u, reg.metadata.hasFinalizer rec.finalizer = true ∧
        (Binding.unregister reg rec.attempts).exec w = (.ok false, u) ∧
        deletingStatus reg w.now (.ok false) ≠ reg.status ∧
        w.failures u.calls = none ∧ w.failures (u.calls + 1) ≠ none := by
  have hbefore := Pass.before_exec (Binding.unregister reg rec.attempts) w
  obtain ⟨hv, hsame⟩ := (Binding.exec_unregister hs reg rec.attempts).registrations hs
  have hfv := (hsame (Resource.key reg)).trans hf
  rw [reconcileDeleting_eq, Pass.exec_bind, exec_accepted] at hout
  generalize (Binding.unregister reg rec.attempts).exec w = released at hbefore hv hfv hout ⊢
  obtain ⟨answer, v⟩ := released
  rw [overstepped_finish_iff rec hv hfv _ _ hout, hbefore.now_eq, hbefore.failures_eq]
  refine ⟨fun ⟨hremovable, hmarked, hne, hnone, hfails⟩ => ?_, ?_⟩
  · have hanswer : answer = .ok false := by
      rcases answer with e | _ | _ <;> simp at hremovable ⊢
    subst hanswer
    exact ⟨v, hmarked, rfl, hne, hnone, hfails⟩
  · rintro ⟨u, hmarked, hrun, hne, hnone, hfails⟩
    obtain ⟨rfl, rfl⟩ := Prod.mk.inj hrun
    exact ⟨rfl, hmarked, hne, hnone, hfails⟩

/-- A pass that fails leaves the status of its registration as it was, unless it oversteps. -/
theorem status_kept_iff_not_oversteps (hs : s.Reachable) (v : Visit) :
    (∀ e, ((rec.reconcile v.key).exec (v.port s)).1 = .error e →
      (rec.after s v).status? v.key = s.status? v.key) ↔ ¬rec.Oversteps s v := by
  have hsound := sound_of_reachable hs
  rcases hread : v.failures 0 with _ | cause
  · rcases hf : s.find? Registration v.key with _ | reg
    · rw [after, exec_reconcile_of_none (w := v.port s) hsound hread hf]
      refine iff_of_true (fun e he => by simp at he) ?_
      rintro ⟨reg, u, -, hfound, -⟩
      simp [hf] at hfound
    · have hkey := (hsound.registration.proper hf).key_eq
      have hkept : s.status? v.key = some reg.status := by
        rw [status?, hf]
        rfl
      rw [after, exec_reconcile_of_found (w := v.port s) hsound hread hf, hkept]
      have hreg := hf
      rw [← hkey] at hreg ⊢
      rcases hdeleting : reg.metadata.isDeleting with _ | _
      · refine iff_of_true (fun e he => ?_) ?_
        · have hfound := find?_of_live_failed (w := (v.port s).skip) hsound hreg he
          exact congrArg (Option.map (·.status)) hfound
        · rintro ⟨reg', u, -, hfound, hdeleting', -⟩
          obtain rfl := Option.some.inj (hf.symm.trans hfound)
          simp [hdeleting] at hdeleting'
      · have hiff := overstepped_deleting_iff rec (w := (v.port s).skip) hsound hreg rfl
        refine Iff.trans ?_ (not_congr (hiff.trans ⟨?_, ?_⟩))
        · simp only [not_exists, not_and, ne_eq, not_not]
          rfl
        · rintro ⟨u, hmarked, hrun, hne, hnone, hfails⟩
          exact ⟨reg, u, hread, hf, hdeleting, hmarked, hrun, hne, hnone, hfails⟩
        · rintro ⟨reg', u, -, hfound, -, hmarked, hrun, hne, hnone, hfails⟩
          obtain rfl := Option.some.inj (hf.symm.trans hfound)
          exact ⟨u, hmarked, hrun, hne, hnone, hfails⟩
  · rw [after_of_failed rec hread]
    refine iff_of_true (fun _ _ => rfl) ?_
    rintro ⟨reg, u, hnone, -⟩
    simp [hread] at hnone

/-- A visit of a deleting registration that is bound, on which one call fails. -/
def interrupted (call : Nat) : Visit where
  key := leavingKey
  now := .epoch
  failures n := if n = call then some outage else none

/-- A status that cannot be written is not told. -/
theorem untold_when_refused :
    (empty.after parting).Reachable ∧
    (∃ e, ((({} : Reconciler).reconcile leavingKey).exec
      ((interrupted 3).port (empty.after parting))).1 = .error e) ∧
    ¬({} : Reconciler).Oversteps (empty.after parting) (interrupted 3) := by
  have hreach : (empty.after parting).Reachable := ⟨parting, rfl⟩
  have hfailed : ((({} : Reconciler).reconcile leavingKey).exec
      ((interrupted 3).port (empty.after parting))).1
        = .error (.ofStore outage "Updating registration status") := by
    decide +kernel
  have hkept : (({} : Reconciler).after (empty.after parting) (interrupted 3)).status? leavingKey
      = (empty.after parting).status? leavingKey := by
    decide +kernel
  exact ⟨hreach, ⟨_, hfailed⟩, (status_kept_iff_not_oversteps hreach _).1 fun _ _ => hkept⟩

/-- A pass fails to take the finalizer off, and has told that the registration is released. -/
theorem told_before_failing : ¬ ∀ (rec : Reconciler) (s : Store) (v : Visit) (e : PassError),
    s.Reachable → ((rec.reconcile v.key).exec (v.port s)).1 = .error e →
    (rec.after s v).status? v.key = s.status? v.key := by
  intro h
  have hfailed : ((({} : Reconciler).reconcile leavingKey).exec
      ((interrupted 4).port (empty.after parting))).1
        = .error (.ofStore outage "Removing finalizer") := by
    decide +kernel
  have htold : (({} : Reconciler).after (empty.after parting) (interrupted 4)).status? leavingKey
      ≠ (empty.after parting).status? leavingKey := by
    decide +kernel
  exact htold (h {} _ (interrupted 4) _ ⟨parting, rfl⟩ hfailed)

end Reconciler

end Registrar
