import Registrar.Proofs.Passes.Binder
import Registrar.Proofs.Passes.Port
import Registrar.Proofs.Passes.Spares
import Registrar.Reconcile

/-!
# The parts of a pass alone

What each part of a pass does on a port of its own. Each write is refused without effect, which
takes a call that fails, or it is taken and told. A binding is written when the reference was not
listed (`exec_register`), a release when it was (`exec_unregister`), a report when the status is
not yet what is reported (`exec_report`), and a finalizer when it is put on or taken off
(`exec_ensure`, `exec_release`).
-/

namespace Registrar

open Resource Parts Store

namespace Port

variable {w : Port} {key : Key} {r : Reference} {d : Domain} {s : Store}

theorem callsFor_tell_registration {event : WatchEvent Registration}
    (hkey : Resource.key event.object = key) : (w.tell s event).CallsFor key := by
  refine ⟨_, List.mem_append_right _ (List.mem_singleton.2 rfl), ?_⟩
  rw [Controller.calledFor_registration, hkey]
  exact List.mem_singleton.2 rfl

theorem callsFor_tell_domain (hr : r ∈ d.spec.registrations) :
    (w.tell s (.applied d)).CallsFor r.key := by
  refine ⟨_, List.mem_append_right _ (List.mem_singleton.2 rfl), ?_⟩
  rw [Controller.calledFor_domain]
  exact List.mem_map_of_mem hr

theorem perform_get {R : Type} [Resource R] [Parts R] (hs : w.store.SoundFor R)
    (h : w.failures w.calls = none) (key : Key) :
    w.perform (.get R key)
      = ((w.store.find? R key).elim (.error (notFound R key)) .ok, w.skip) := by
  rw [perform_answers h]
  simp [Store.perform, Store.told, hs.get_eq, skip]

theorem perform_get_snd (w : Port) (R : Type) [Resource R] (key : Key) :
    (w.perform (.get R key)).2 = w.skip := by
  rcases h : w.failures w.calls with _ | e
  · rw [perform_answers h]
    simp [Store.perform, Store.told, skip]
  · rw [perform_fails h]

theorem perform_listing (hs : w.store.Sound) (hd : w.store.find? Domain key = some d)
    {list : List Reference} (hne : list ≠ d.spec.registrations) :
    (w.Fails ∧
      ∃ e, w.perform (.patch d { d with spec.registrations := list }) = (.error e, w.skip)) ∨
    ∃ s, w.store.Relisted key list s ∧
      w.perform (.patch d { d with spec.registrations := list })
        = (.ok (relisted d list), w.tell s (.applied (relisted d list))) := by
  rcases hf : w.failures w.calls with _ | e
  · have hkey := (hs.domain.proper hd).key_eq
    have hok : (w.store.patch d { d with spec.registrations := list }).answer.isOk :=
      isOk_patch hs.domain ⟨by rwa [hkey], rfl⟩ rfl fun h => absurd h (by decide)
    obtain ⟨e, hp⟩ | ⟨s, hp, hrelisted⟩ := Store.patch_listing hs hd hne
    · simp [hp, Except.isOk, Except.toBool] at hok
    · refine .inr ⟨s, hrelisted, ?_⟩
      rw [perform_answers hf]
      simp [Store.perform, Store.told, hp, announced, Port.tell]
  · exact .inl ⟨⟨_, e, hf⟩, e, perform_fails hf _⟩

/-- A creation of a domain fails, or nothing may have the name, or there is a domain of that name,
or the domain is new and lists what it is to list. -/
theorem perform_create (hs : w.store.Sound) (hostname : String) (list : List Reference) :
    (∃ e, w.perform (.create { Domain.named hostname with spec.registrations := list })
        = (.error e, w.skip) ∧
      (w.Fails ∨ Text.trim hostname = "" ∨ w.store.find? Domain { name := hostname } ≠ none)) ∨
    ∃ new s, new.spec.registrations = list ∧ w.store.find? Domain { name := hostname } = none ∧
      w.store.Relisted { name := hostname } list s ∧
      w.perform (.create { Domain.named hostname with spec.registrations := list })
        = (.ok new, w.tell s (.applied new)) := by
  rcases hf : w.failures w.calls with _ | e
  · rw [perform_answers hf]
    obtain ⟨e, hc⟩ | ⟨new, s, hc, hlist, hnone, hrelisted⟩ :=
      create_listing w.store w.now hostname list
    · refine .inl ⟨e, by simp [Store.perform, Store.told, hc, announced, skip], .inr ?_⟩
      by_contra hfit
      rw [not_or, not_not] at hfit
      have hfault :
          identityFault? { Domain.named hostname with spec.registrations := list } = none := by
        simp [identityFault?, Resource.metadata, Domain.named, Resource.namespaced, hfit.1]
      have hnone : w.store.value? Domain { name := hostname } = none := by
        rw [hs.domain.value?_eq, hfit.2]
        rfl
      have hok := isOk_create w.now hfault hnone
      simp [hc, Except.isOk, Except.toBool] at hok
    · refine .inr ⟨new, s, hlist, hnone, hrelisted, ?_⟩
      simp [Store.perform, Store.told, hc, announced, Port.tell]
  · exact .inl ⟨e, perform_fails hf _, .inl ⟨_, e, hf⟩⟩

end Port

namespace Binding

open Port

variable {w : Port} {key : Key} {r : Reference} {d : Domain} {hostname : String}

theorem exec_tryWrite (hs : w.store.Sound) (hd : w.store.find? Domain key = some d)
    {list : List Reference} (hne : list ≠ d.spec.registrations) :
    (∃ answer, (tryWrite key d list).exec w = (answer, w.skip) ∧ w.Fails ∧
      ∀ stored, answer ≠ .ok (some stored)) ∨
    ∃ s, w.store.Relisted key list s ∧ (tryWrite key d list).exec w
      = (.ok (some (relisted d list)), w.tell s (.applied (relisted d list))) := by
  obtain ⟨hfails, e, hp⟩ | ⟨s, hrelisted, hp⟩ := perform_listing hs hd hne
  · have hrefused : ∃ answer, (tryWrite key d list).exec w = (answer, w.skip) ∧
        ∀ stored, answer ≠ .ok (some stored) := by
      rw [tryWrite, Pass.exec_bind, Pass.exec_ask, hp]
      change ∃ answer, (if e.isConflict then pure none else throw _ :
        Pass (Option Domain)).exec w.skip = (answer, w.skip) ∧ _
      split
      · exact ⟨_, rfl, by simp⟩
      · exact ⟨_, rfl, by simp⟩
    obtain ⟨answer, hw, hne⟩ := hrefused
    exact .inl ⟨answer, hw, hfails, hne⟩
  · refine .inr ⟨s, hrelisted, ?_⟩
    rw [tryWrite, Pass.exec_bind, Pass.exec_ask, hp]
    rfl

/-- How an attempt to bind ends, `done` telling that the reference is listed. -/
inductive Registered (hostname : String) (r : Reference) (w : Port) {α : Type} (done : α) :
    Except PassError α × Port → Prop
  | refused {answer : Except PassError α} {w' : Port} (untouched : w.Untouched w')
      (not_done : answer ≠ .ok done)
      (missing : (∃ e, answer = .error e) ∨
        References.contains (w.store.listed { name := hostname }) r = false)
      (reason : w.Fails ∨
        w.store.find? Domain { name := hostname } = none ∧ Text.trim hostname = "") :
      Registered hostname r w done (answer, w')
  | listed (contains : References.contains (w.store.listed { name := hostname }) r = true)
      (answered : w.failures w.calls = none) : Registered hostname r w done (.ok done, w.skip)
  | written {w' : Port}
      (absent : References.contains (w.store.listed { name := hostname }) r = false)
      (relisted : w.store.Relisted { name := hostname }
        (References.append (w.store.listed { name := hostname }) r) w'.store)
      (told : w'.CallsFor r.key) : Registered hostname r w done (.ok done, w')

/-- An attempt that has not found the domain goes on to create it. -/
theorem exec_createDomain (hs : w.store.Sound)
    (hget : w.Fails ∨ w.store.find? Domain { name := hostname } = none) (context : String) :
    Registered hostname r w (some ()) ((do
      let _ ← Pass.require (.create { Domain.named hostname with spec.registrations := [r] })
        context
      return some () : Pass (Option Unit)).exec w.skip) := by
  rw [Pass.exec_map _ fun _ => some (), Pass.exec_require]
  obtain ⟨e, hp, hreason⟩ | ⟨new, s, hlist, hnone, hrelisted, hp⟩ :=
    perform_create (w := w.skip) hs hostname [r] <;> rw [hp]
  · refine .refused ((Untouched.skip w).trans (.skip _)) (by simp [Except.mapError, Except.map])
      (.inl ⟨_, rfl⟩) ?_
    rcases hreason with hfails | hblank | hfound
    · exact .inl hfails
    · exact hget.imp_right fun hnone => ⟨hnone, hblank⟩
    · exact .inl (hget.resolve_right hfound)
  · have hempty := listed_of_none (s := w.store) hnone
    refine .written (by rw [hempty]; rfl) ?_ (callsFor_tell_domain (by simp [hlist]))
    rw [hempty]
    exact hrelisted

theorem exec_tryRegister (hs : w.store.Sound) :
    Registered hostname r w (some ()) ((tryRegister { name := hostname } r).exec w) := by
  rw [tryRegister, Pass.exec_bind, Pass.exec_ask]
  rcases hf : w.failures w.calls with _ | e
  · rw [perform_get hs.domain hf]
    rcases hd : w.store.find? Domain { name := hostname } with _ | d
    · exact exec_createDomain hs (.inr hd) _
    · change Registered hostname r w (some ()) ((if References.contains d.spec.registrations r then
        pure (some ()) else _ : Pass (Option Unit)).exec w.skip)
      have hlisted := listed_of_find? hd
      split
      · rename_i hcontains
        exact .listed (by rwa [hlisted]) hf
      · rename_i hcontains
        have habsent : References.contains d.spec.registrations r = false := by
          simpa using hcontains
        rw [Pass.exec_map _ (Option.map fun _ : Domain => ())]
        obtain ⟨answer, hw, hfails, hne⟩ | ⟨s, hrelisted, hw⟩ :=
          exec_tryWrite (w := w.skip) hs hd (References.append_ne_iff.2 habsent) <;> rw [hw]
        · refine .refused ((Untouched.skip w).trans (.skip _)) ?_ (.inr (by rwa [hlisted]))
            (.inl hfails)
          rcases answer with e | _ | stored
          · simp [Except.map]
          · simp [Except.map]
          · exact absurd rfl (hne stored)
        · refine .written (by rwa [hlisted]) (by rwa [hlisted]) (callsFor_tell_domain ?_)
          change r ∈ References.append d.spec.registrations r
          rw [References.append_of_not_contains habsent]
          exact List.mem_append_right _ (List.mem_singleton.2 rfl)
  · rw [perform_fails hf]
    change Registered hostname r w (some ()) ((if e.isNotFound then _ else throw _ :
      Pass (Option Unit)).exec w.skip)
    split
    · exact exec_createDomain hs (.inl ⟨_, e, hf⟩) _
    · exact .refused (.skip w) (by simp) (.inl ⟨_, rfl⟩) (.inl ⟨_, e, hf⟩)

/-- How an attempt to release ends, `tells` telling whether the reference is still listed. -/
inductive Unregistered (key : Key) (r : Reference) (w : Port) {α : Type} (tells : Bool → α) :
    Except PassError α × Port → Prop
  | failed {answer : Except PassError α} {w' : Port} (untouched : w.Untouched w') (fails : w.Fails)
      (not_bound : answer ≠ .ok (tells true)) : Unregistered key r w tells (answer, w')
  | unlisted (absent : References.contains (w.store.listed key) r = false) :
      Unregistered key r w tells (.ok (tells false), w.skip)
  | written {w' : Port} (contains : References.contains (w.store.listed key) r = true)
      (relisted : w.store.Relisted key (References.remove (w.store.listed key) r) w'.store) :
      Unregistered key r w tells (.ok (tells false), w')

theorem exec_tryUnregister (hs : w.store.Sound) :
    Unregistered key r w some ((tryUnregister key r).exec w) := by
  rw [tryUnregister, Pass.exec_bind, Pass.exec_ask]
  rcases hf : w.failures w.calls with _ | e
  · rw [perform_get hs.domain hf]
    rcases hd : w.store.find? Domain key with _ | d
    · exact .unlisted (by rw [listed_of_none hd]; rfl)
    · change Unregistered key r w some ((if !References.contains d.spec.registrations r then
        pure (some false) else _ : Pass (Option Bool)).exec w.skip)
      have hlisted := listed_of_find? hd
      split
      · rename_i habsent
        exact .unlisted (by rw [hlisted]; simpa using habsent)
      · rename_i hcontains
        have hcontains : References.contains d.spec.registrations r = true := by
          simpa using hcontains
        rw [Pass.exec_map _
          (Option.map fun d : Domain => References.contains d.spec.registrations r)]
        obtain ⟨answer, hw, hfails, hne⟩ | ⟨s, hrelisted, hw⟩ :=
          exec_tryWrite (w := w.skip) hs hd (References.remove_ne_iff.2 hcontains) <;> rw [hw]
        · refine .failed ((Untouched.skip w).trans (.skip _)) hfails ?_
          rcases answer with e | _ | stored
          · simp [Except.map]
          · simp [Except.map]
          · exact absurd rfl (hne stored)
        · have hgone : References.contains
              (relisted d (References.remove d.spec.registrations r)).spec.registrations r
                = false :=
            References.not_contains_remove_self
          simp only [Except.map, Option.map_some, hgone]
          exact .written (by rwa [hlisted]) (by rwa [hlisted])
  · rw [perform_fails hf]
    change Unregistered key r w some ((if e.isNotFound then pure (some false) else throw _ :
      Pass (Option Bool)).exec w.skip)
    split
    · exact .failed (.skip w) ⟨_, e, hf⟩ (by simp)
    · exact .failed (.skip w) ⟨_, e, hf⟩ (by simp)

/-- What holds of a port after each attempt that met a conflict leads to what holds at the end. -/
theorem exec_retrying {α : Type} {attempt : Pass (Option α)} {limit : Nat} (holds : Port → Prop)
    {post : Except PassError α × Port → Prop}
    (failed : ∀ v e v', holds v → attempt.exec v = (.error e, v') → post (.error e, v'))
    (done : ∀ v a v', holds v → attempt.exec v = (.ok (some a), v') → post (.ok a, v'))
    (again : ∀ v v', holds v → attempt.exec v = (.ok none, v') →
      holds v' ∧ ∀ e, post (.error e, v')) (n : Nat) :
    ∀ w : Port, holds w → post ((retrying key limit attempt (n + 1)).exec w) := by
  induction n with
  | zero =>
    intro w hw
    rw [retrying, Pass.exec_bind]
    rcases hp : attempt.exec w with ⟨e | _ | a, v⟩
    · exact failed w e v hw hp
    · exact (again w v hw hp).2 _
    · exact done w a v hw hp
  | succ n ih =>
    intro w hw
    rw [retrying, Pass.exec_bind]
    rcases hp : attempt.exec w with ⟨e | _ | a, v⟩
    · exact failed w e v hw hp
    · exact ih v (again w v hw hp).1
    · exact done w a v hw hp

theorem exists_attempts (attempts : Nat) : ∃ n, max attempts 1 = n + 1 :=
  ⟨max attempts 1 - 1, by omega⟩

theorem exec_register (hs : w.store.Sound) (reg : Registration) (attempts : Nat) :
    Registered reg.hostname (Resource.reference reg) w () ((register reg attempts).exec w) := by
  obtain ⟨n, hn⟩ := exists_attempts attempts
  have hattempt : ∀ v, w.Untouched v →
      Registered reg.hostname (Resource.reference reg) v (some ())
        ((tryRegister (domainKey reg) (Resource.reference reg)).exec v) :=
    fun v hv => exec_tryRegister (by rwa [hv.store_eq])
  have hreason : ∀ {v}, w.Untouched v →
      (v.Fails ∨ v.store.find? Domain { name := reg.hostname } = none ∧
        Text.trim reg.hostname = "") →
      (w.Fails ∨ w.store.find? Domain { name := reg.hostname } = none ∧
        Text.trim reg.hostname = "") := by
    intro v hv h
    rwa [Fails, hv.failures_eq, hv.store_eq] at h
  rw [register, hn]
  -- A second attempt follows a conflict only, and so finds the reference still unlisted.
  refine exec_retrying
    (fun v => w.Untouched v ∧ (v = w ∨ References.contains
      (w.store.listed { name := reg.hostname }) (Resource.reference reg) = false))
    (fun v e v' hv hp => ?_) (fun v a v' hv hp => ?_) (fun v v' hv hp => ?_) n w
    ⟨.refl w, .inl rfl⟩ <;>
    obtain ⟨hv, hfirst⟩ := hv <;> have h := hattempt v hv <;> rw [hp] at h
  · cases h with
    | refused untouched _ _ reason =>
      exact .refused (hv.trans untouched) (by simp) (.inl ⟨_, rfl⟩) (hreason hv reason)
  · cases h with
    | refused _ not_done => exact absurd rfl not_done
    | listed contains answered =>
      rcases hfirst with rfl | habsent
      · exact .listed contains answered
      · rw [hv.store_eq, habsent] at contains
        exact absurd contains (by simp)
    | written absent relisted told =>
      rw [hv.store_eq] at absent relisted
      exact .written absent relisted told
  · cases h with
    | refused untouched _ missing reason =>
      have habsent := missing.resolve_left (by simp)
      rw [hv.store_eq] at habsent
      exact ⟨⟨hv.trans untouched, .inr habsent⟩, fun e =>
        .refused (hv.trans untouched) (by simp) (.inl ⟨_, rfl⟩) (hreason hv reason)⟩

theorem exec_unregister (hs : w.store.Sound) (reg : Registration) (attempts : Nat) :
    Unregistered (domainKey reg) (Resource.reference reg) w id
      ((unregister reg attempts).exec w) := by
  obtain ⟨n, hn⟩ := exists_attempts attempts
  have hattempt : ∀ v, w.Untouched v → Unregistered (domainKey reg) (Resource.reference reg) v some
      ((tryUnregister (domainKey reg) (Resource.reference reg)).exec v) :=
    fun v hv => exec_tryUnregister (by rwa [hv.store_eq])
  have hfails : ∀ {v}, w.Untouched v → v.Fails → w.Fails := by
    intro v hv h
    rwa [Fails, hv.failures_eq] at h
  rw [unregister, hn]
  refine exec_retrying (fun v => w.Untouched v ∧ (v = w ∨ w.Fails))
    (fun v e v' hv hp => ?_) (fun v a v' hv hp => ?_) (fun v v' hv hp => ?_) n w
    ⟨.refl w, .inl rfl⟩ <;>
    obtain ⟨hv, hfirst⟩ := hv <;> have h := hattempt v hv <;> rw [hp] at h
  · cases h with
    | failed untouched fails => exact .failed (hv.trans untouched) (hfails hv fails) (by simp)
  · cases h with
    | failed untouched fails not_bound =>
      refine .failed (hv.trans untouched) (hfails hv fails) fun hbound => not_bound ?_
      rw [Except.ok.inj hbound, id]
    | unlisted absent =>
      rcases hfirst with rfl | hfails
      · exact .unlisted absent
      · exact .failed (hv.trans (.skip v)) hfails (by simp)
    | written contains relisted =>
      rw [hv.store_eq] at contains relisted
      exact .written contains relisted
  · cases h with
    | failed untouched fails =>
      exact ⟨⟨hv.trans untouched, .inr (hfails hv fails)⟩, fun e =>
        .failed (hv.trans untouched) (hfails hv fails) (by simp)⟩

theorem Unregistered.registrations {α : Type} {tells : Bool → α} {out : Except PassError α × Port}
    (h : Unregistered key r w tells out) (hs : w.store.Sound) :
    out.2.store.Sound ∧
      ∀ key, out.2.store.find? Registration key = w.store.find? Registration key := by
  cases h with
  | failed untouched =>
    rw [untouched.store_eq]
    exact ⟨hs, fun _ => rfl⟩
  | unlisted => exact ⟨hs, fun _ => rfl⟩
  | written _ relisted =>
    exact ⟨Sound.wrote (k := .domain) hs relisted.wrote, relisted.registration_eq⟩

end Binding

namespace Store

/-- A registration as it is stored with other finalizers. -/
def remarked (reg : Registration) (list : List String) : Registration :=
  raised { reg with metadata.finalizers := list } false

@[simp] theorem key_remarked (reg : Registration) (list : List String) :
    Resource.key (remarked reg list) = Resource.key reg :=
  key_raised _ _

/-- One store is another in which a registration has got other finalizers, as was told, or is gone
because it is deleting and holds none any more. -/
structure Remarked (s : Store) (reg : Registration) (list : List String)
    (event : WatchEvent Registration) (t : Store) : Prop where
  wrote : s.Wrote Registration t
  key_eq : Resource.key event.object = Resource.key reg
  find?_eq : t.find? Registration (Resource.key reg)
    = if reg.metadata.isDeleting && list.isEmpty then none else some (remarked reg list)
  others : ∀ key, key ≠ Resource.key reg → t.find? Registration key = s.find? Registration key

theorem Remarked.version_eq {s t : Store} {reg : Registration} {list : List String}
    {event : WatchEvent Registration} (h : s.Remarked reg list event t) (next : Registration)
    (hf : t.find? Registration (Resource.key reg) = some next) :
    next.metadata.resourceVersion = reg.metadata.resourceVersion + 1 := by
  rw [h.find?_eq] at hf
  split at hf
  · simp at hf
  · obtain rfl := Option.some.inj hf
    rfl

theorem patch_finalizers {s : Store} {reg : Registration} (hs : s.Sound)
    (hf : s.find? Registration (Resource.key reg) = some reg) {list : List String}
    (hne : list ≠ reg.metadata.finalizers) :
    ∃ next event t,
      s.patch reg { reg with metadata.finalizers := list } = ⟨.ok next, some event, t⟩ ∧
      s.Remarked reg list event t := by
  have hacc : s.Accepted reg reg := ⟨hf, rfl⟩
  have hok : (s.patch reg { reg with metadata.finalizers := list }).answer.isOk :=
    isOk_patch hs.registration hacc rfl fun _ => rfl
  have hw := wrote_patch hs.registration reg { reg with metadata.finalizers := list }
  have hothers := fun key (hkey : key ≠ Resource.key reg) =>
    find?_patch_of_ne hs.registration { reg with metadata.finalizers := list } hkey
  obtain ⟨e, hp⟩ | ⟨current, hacc', -, hp⟩ :=
    patch_cases hs.registration reg { reg with metadata.finalizers := list }
  · simp [hp, Except.isOk, Except.toBool] at hok
  · obtain rfl := Option.some.inj (hacc'.found.symm.trans hf)
    obtain ⟨hsame, -⟩ | ⟨next, changed, rfl, hchanged, -, -, hp⟩ := hp
    · exact absurd (congrArg (fun r : Registration => r.metadata.finalizers) hsame) hne
    obtain rfl : changed = false := Bool.eq_false_iff.2 fun h => hchanged.1 h rfl
    obtain ⟨hdeleting, hbare, hp⟩ | ⟨hheld, hp⟩ := hp
    · rw [hp] at hw hothers
      refine ⟨_, _, _, hp, hw, key_raised _ _, ?_, hothers⟩
      have hdeleting : current.metadata.isDeleting = true := hdeleting
      have hbare : list = [] := hbare
      rw [find?_drop_self, if_pos (by simp [hdeleting, hbare])]
    · rw [hp] at hw hothers
      refine ⟨_, _, _, hp, hw, key_raised _ _, ?_, hothers⟩
      have hheld : current.metadata.isDeleting = true → list ≠ [] := hheld
      rw [if_neg (by simpa using hheld), ← key_remarked current list]
      exact find?_put_self

end Store

section Finalizers

open Port

variable {w : Port} {reg : Registration}

theorem perform_finalizers (hs : w.store.Sound)
    (hf : w.store.find? Registration (Resource.key reg) = some reg) (list : List String)
    (hne : list ≠ reg.metadata.finalizers) :
    (w.Fails ∧ ∃ e, w.perform (.patch reg { reg with metadata.finalizers := list })
      = (.error e, w.skip)) ∨
    ∃ next event s, w.store.Remarked reg list event s ∧
      w.perform (.patch reg { reg with metadata.finalizers := list })
        = (.ok next, w.tell s event) := by
  rcases hfails : w.failures w.calls with _ | e
  · obtain ⟨next, event, s, hp, hremarked⟩ := Store.patch_finalizers hs hf hne
    refine .inr ⟨next, event, s, hremarked, ?_⟩
    rw [perform_answers hfails]
    simp [Store.perform, Store.told, hp, announced, Port.tell]
  · exact .inl ⟨⟨_, e, hfails⟩, e, perform_fails hfails _⟩

theorem run_ensure_of_marked {marker : String} (h : reg.metadata.hasFinalizer marker) :
    (Finalizer.ensure reg marker).run access w = (.ok (reg, false), w) := by
  have h : (Resource.metadata reg).hasFinalizer marker = true := h
  rw [Finalizer.ensure, h]
  rfl

theorem run_ensure (hs : w.store.Sound)
    (hf : w.store.find? Registration (Resource.key reg) = some reg) {marker : String}
    (hbare : reg.metadata.hasFinalizer marker = false) :
    (w.Fails ∧ ∃ e, (Finalizer.ensure reg marker).run access w = (.error e, w.skip)) ∨
    ∃ next event s, w.store.Remarked reg (reg.metadata.finalizers ++ [marker]) event s ∧
      (Finalizer.ensure reg marker).run access w = (.ok (next, true), w.tell s event) := by
  have hbare' : (Resource.metadata reg).hasFinalizer marker = false := hbare
  have hcall : Finalizer.ensure reg marker
      = .call (.patch reg { reg with metadata.finalizers := reg.metadata.finalizers ++ [marker] })
        fun answer => .done (answer.map (·, true)) := by
    rw [Finalizer.ensure, Metadata.addFinalizer, hbare']
    rfl
  obtain ⟨hfails, e, hp⟩ | ⟨next, event, s, hremarked, hp⟩ :=
    perform_finalizers hs hf (reg.metadata.finalizers ++ [marker]) (by simp)
  · exact .inl ⟨hfails, e, by simp [hcall, Program.run, access, hp, Except.map]⟩
  · exact .inr ⟨next, event, s, hremarked, by simp [hcall, Program.run, access, hp, Except.map]⟩

theorem run_release_of_bare {marker : String} (h : reg.metadata.hasFinalizer marker = false) :
    (Finalizer.release reg marker).run access w = (.ok false, w) := by
  have h : (Resource.metadata reg).hasFinalizer marker = false := h
  rw [Finalizer.release, h]
  rfl

theorem run_release (hs : w.store.Sound)
    (hf : w.store.find? Registration (Resource.key reg) = some reg) {marker : String}
    (hmarked : reg.metadata.hasFinalizer marker) :
    (w.Fails ∧ ∃ e, (Finalizer.release reg marker).run access w = (.error e, w.skip)) ∨
    ∃ event s, w.store.Remarked reg (reg.metadata.finalizers.filter (· != marker)) event s ∧
      (Finalizer.release reg marker).run access w = (.ok true, w.tell s event) := by
  have hmarked' : (Resource.metadata reg).hasFinalizer marker = true := hmarked
  have hne : reg.metadata.finalizers.filter (· != marker) ≠ reg.metadata.finalizers := by
    rw [Metadata.hasFinalizer, List.contains_iff_mem] at hmarked
    simp only [ne_eq, List.filter_eq_self, not_forall]
    exact ⟨marker, hmarked, by simp⟩
  have hcall : Finalizer.release reg marker
      = .call (.patch reg
          { reg with metadata.finalizers := reg.metadata.finalizers.filter (· != marker) })
        fun answer => .done (answer.map fun _ => true) := by
    rw [Finalizer.release, hmarked']
    rfl
  obtain ⟨hfails, e, hp⟩ | ⟨next, event, s, hremarked, hp⟩ := perform_finalizers hs hf _ hne
  · exact .inl ⟨hfails, e, by simp [hcall, Program.run, access, hp, Except.map]⟩
  · exact .inr ⟨event, s, hremarked, by simp [hcall, Program.run, access, hp, Except.map]⟩

end Finalizers

end Registrar
