import Registrar.Proofs.Passes.Sticky

/-!
# What a pass touches

A pass over a registration touches two objects of the store, the domain of its hostname and the
registration itself. Binding it touches the domain only (`Store.Rebound`) and telling of it the
registration only (`Store.Revised`), so whichever calls of a pass fail, the store after it differs
in these two alone, and in them as the pass means them to (`touched_after`).
-/

namespace Registrar

open Resource Parts Store

/-- What a pass leaves of its registration: all of it but status and version, with the finalizer
behind the others while it lives, without it while it is deleting, and nothing of it when nobody
else holds it then. -/
inductive Registration.Touched (marker : String) (reg : Registration) : Option Registration → Prop
  | told (version : UInt64) (status : Registration.Status) :
      Touched marker reg (some (reg.restated version status))
  | marked (live : reg.metadata.isDeleting = false)
      (bare : reg.metadata.hasFinalizer marker = false) :
      Touched marker reg (some { reg with
        metadata.resourceVersion := reg.metadata.resourceVersion + 1
        metadata.finalizers := reg.metadata.finalizers ++ [marker] })
  | unmarked (deleting : reg.metadata.isDeleting = true) (version : UInt64)
      (status : Registration.Status) :
      Touched marker reg (some { reg.restated version status with
        metadata.finalizers := reg.metadata.finalizers.filter (· != marker) })
  | removed (deleting : reg.metadata.isDeleting = true)
      (marked : reg.metadata.hasFinalizer marker = true)
      (alone : ∀ f ∈ reg.metadata.finalizers, f = marker) : Touched marker reg none

/-- What a pass over a registration makes of the domain of its hostname, with the uids that had and
have been handed out: a live one is listed behind the others, in a new domain if there is none, and
a deleting one is struck. -/
inductive Domain.Touched (reg : Registration) (now : Time) (issued : Nat) :
    Nat → Option Domain → Option Domain → Prop
  | same (o : Option Domain) : Touched reg now issued issued o o
  | listed {d : Domain} (live : reg.metadata.isDeleting = false)
      (absent : References.contains d.spec.registrations (Resource.reference reg) = false) :
      Touched reg now issued issued (some d) (some { d with
        metadata.resourceVersion := d.metadata.resourceVersion + 1
        metadata.generation := d.metadata.generation + 1
        spec.registrations := d.spec.registrations ++ [Resource.reference reg] })
  | struck {d : Domain} (deleting : reg.metadata.isDeleting = true) :
      Touched reg now issued issued (some d) (some { d with
        metadata.resourceVersion := d.metadata.resourceVersion + 1
        metadata.generation := d.metadata.generation + 1
        spec.registrations :=
          d.spec.registrations.filter (!·.sameObject (Resource.reference reg)) })
  | created (live : reg.metadata.isDeleting = false) :
      Touched reg now issued (issued + 1) none (some {
        metadata := {
          name := reg.hostname
          uid := Uid.nth (issued + 1)
          resourceVersion := 1
          generation := 1
          creationTime := some now }
        spec := { registrations := [Resource.reference reg] } })

/-- What is told of a registration before it is touched does not show. -/
theorem Registration.Touched.of_restated {marker : String} {reg : Registration} {version : UInt64}
    {status : Registration.Status} {o : Option Registration}
    (hdeleting : reg.metadata.isDeleting = true)
    (h : (reg.restated version status).Touched marker o) : reg.Touched marker o := by
  cases h with
  | told version' status' => exact .told version' status'
  | marked live =>
    have hlive : reg.metadata.isDeleting = false := live
    simp [hdeleting] at hlive
  | unmarked _ version' status' => exact .unmarked hdeleting version' status'
  | removed _ marked alone => exact .removed hdeleting marked alone

namespace Store

variable {R : Type} [Resource R] {s t u : Store} {key : Key} {slot : Slot}

theorem find?_congr (h : t.objects.get? (Store.slot R key) = s.objects.get? (Store.slot R key)) :
    t.find? R key = s.find? R key := by
  rw [find?, value?, h]
  rfl

namespace Wrote

variable [Parts R]

theorem get?_of_kind_ne (h : s.Wrote R t) (hne : slot.kind ≠ kind R) :
    t.objects.get? slot = s.objects.get? slot := by
  have hslot : ∀ key, slot ≠ Store.slot R key := fun key he => hne (congrArg Slot.kind he)
  cases h with
  | same => rfl
  | created | changed => simp [put, SortedMap.get?_insert, hslot]
  | removed => simp [drop, SortedMap.get?_erase, hslot]

/-- A write that leaves the objects of all other keys leaves all other values. -/
theorem get?_of_ne (h : s.Wrote R t) (hs : s.SoundFor R)
    (hothers : ∀ key', key' ≠ key → t.find? R key' = s.find? R key')
    (hne : slot ≠ Store.slot R key) : t.objects.get? slot = s.objects.get? slot := by
  obtain ⟨k, key'⟩ := slot
  by_cases hk : k = kind R
  · subst hk
    have hkey : key' ≠ key := fun he => hne (by rw [he, Store.slot])
    change t.value? R key' = s.value? R key'
    rw [(h.soundFor hs).value?_eq, hs.value?_eq, hothers key' hkey]
  · exact h.get?_of_kind_ne hk

theorem issued_eq (h : s.Wrote R t) (hstays : ∀ key, s.find? R key = none → t.find? R key = none) :
    t.issued = s.issued := by
  cases h with
  | same | changed | removed => rfl
  | created absent =>
    have hgone := hstays _ absent
    rw [find?_put_self] at hgone
    simp at hgone

end Wrote

/-- One store is another in which a registration has been bound or released. -/
structure Rebound (reg : Registration) (now : Time) (s t : Store) : Prop where
  sound : t.Sound
  elsewhere : ∀ slot, slot ≠ Store.slot Domain (Binding.domainKey reg) →
    t.objects.get? slot = s.objects.get? slot
  domain : Domain.Touched reg now s.issued t.issued (s.find? Domain (Binding.domainKey reg))
    (t.find? Domain (Binding.domainKey reg))

/-- One store is another in which a registration has been told of, marked or released. -/
structure Revised (marker : String) (reg : Registration) (s t : Store) : Prop where
  sound : t.Sound
  elsewhere : ∀ slot, slot ≠ Store.slot Registration (Resource.key reg) →
    t.objects.get? slot = s.objects.get? slot
  registration : reg.Touched marker (t.find? Registration (Resource.key reg))
  issued_eq : t.issued = s.issued

/-- One store is another in which a pass has touched a registration and the domain of its hostname.
-/
structure Touched (marker : String) (reg : Registration) (now : Time) (s t : Store) : Prop where
  sound : t.Sound
  elsewhere : ∀ slot, slot ≠ Store.slot Registration (Resource.key reg) →
    slot ≠ Store.slot Domain (Binding.domainKey reg) → t.objects.get? slot = s.objects.get? slot
  registration : reg.Touched marker (t.find? Registration (Resource.key reg))
  domain : Domain.Touched reg now s.issued t.issued (s.find? Domain (Binding.domainKey reg))
    (t.find? Domain (Binding.domainKey reg))

variable {marker : String} {reg : Registration} {now : Time}

theorem slot_registration_ne (key key' : Key) :
    Store.slot Registration key ≠ Store.slot Domain key' :=
  fun he => absurd (congrArg Slot.kind he) (show kind Registration ≠ kind Domain by decide)

namespace Rebound

theorem refl (reg : Registration) (now : Time) (hs : s.Sound) : s.Rebound reg now s :=
  ⟨hs, fun _ _ => rfl, .same _⟩

theorem registration_eq (h : s.Rebound reg now t) (key : Key) :
    t.find? Registration key = s.find? Registration key :=
  find?_congr (h.elsewhere _ (slot_registration_ne _ _))

/-- A write of the list of a stored domain. -/
theorem of_relisted {list : List Reference} {d : Domain} (hs : s.Sound)
    (h : s.Relisted (Binding.domainKey reg) list t)
    (hd : s.find? Domain (Binding.domainKey reg) = some d)
    (htouched : Domain.Touched reg now s.issued s.issued (some d) (some (relisted d list))) :
    s.Rebound reg now t where
  sound := Sound.wrote (k := .domain) hs h.wrote
  elsewhere _ hne := h.wrote.get?_of_ne hs.domain h.other hne
  domain := by
    have hissued : t.issued = s.issued := h.wrote.issued_eq fun key hnone => by
      rw [h.other key fun he => by simp [he, hd] at hnone, hnone]
    rw [hissued, hd, h.kept d hd]
    exact htouched

/-- The creation of the domain that was missing, taken or not. -/
theorem create (now : Time) (hs : s.Sound) (hlive : reg.metadata.isDeleting = false)
    (hnone : s.find? Domain (Binding.domainKey reg) = none) :
    s.Rebound reg now (s.create now { Domain.named reg.hostname with
      spec.registrations := [Resource.reference reg] }).store := by
  have hw := wrote_create s now { Domain.named reg.hostname with
    spec.registrations := [Resource.reference reg] }
  obtain ⟨e, hc⟩ | ⟨new, hnew, -, -, hc⟩ := create_cases (s := s) now
    { Domain.named reg.hostname with spec.registrations := [Resource.reference reg] }
  · rw [hc]
    exact .refl _ _ hs
  · rw [hc] at hw ⊢
    have hkey : Resource.key new = Binding.domainKey reg := by
      rw [hnew, key_stamped]
      rfl
    refine ⟨Sound.wrote (k := .domain) hs hw, fun slot hne => ?_, ?_⟩
    · refine hw.get?_of_ne hs.domain (fun key' hne' => ?_) hne
      rw [find?_put, hkey, if_neg hne']
      rfl
    · rw [hnone, ← hkey, find?_put_self, hnew]
      exact .created hlive

end Rebound

namespace Revised

theorem refl (marker : String) (hs : s.Sound)
    (hf : s.find? Registration (Resource.key reg) = some reg) : s.Revised marker reg s :=
  ⟨hs, fun _ _ => rfl, hf ▸ .told _ _, rfl⟩

theorem of_wrote (hs : s.Sound) (hf : s.find? Registration (Resource.key reg) = some reg)
    (h : s.Wrote Registration t)
    (hothers : ∀ key, key ≠ Resource.key reg →
      t.find? Registration key = s.find? Registration key)
    (htouched : reg.Touched marker (t.find? Registration (Resource.key reg))) :
    s.Revised marker reg t where
  sound := Sound.wrote (k := .registration) hs h
  elsewhere _ hne := h.get?_of_ne hs.registration hothers hne
  registration := htouched
  issued_eq := h.issued_eq fun key hnone => by
    rw [hothers key fun he => by simp [he, hf] at hnone, hnone]

theorem put_retold (marker : String) (hs : s.Sound)
    (hf : s.find? Registration (Resource.key reg) = some reg) (status : Registration.Status)
    (hw : s.Wrote Registration (s.put (Reconciler.retold reg status))) :
    s.Revised marker reg (s.put (Reconciler.retold reg status)) := by
  refine .of_wrote hs hf hw (fun key hne => ?_) ?_
  · rw [find?_put, Reconciler.key_retold, if_neg hne]
  · rw [Reconciler.find?_put_retold]
    exact .told _ _

/-- What a pass does to a registration of which it has told before. -/
theorem trans_retold {status : Registration.Status} (hdeleting : reg.metadata.isDeleting = true)
    (h : s.Revised marker reg t) (h' : t.Revised marker (Reconciler.retold reg status) u) :
    s.Revised marker reg u where
  sound := h'.sound
  elsewhere slot hne :=
    (h'.elsewhere slot (by rwa [Reconciler.key_retold])).trans (h.elsewhere slot hne)
  registration := by
    have htouched := h'.registration
    rw [Reconciler.key_retold] at htouched
    exact .of_restated hdeleting htouched
  issued_eq := h'.issued_eq.trans h.issued_eq

end Revised

theorem Rebound.trans_revised (h : s.Rebound reg now t) (h' : t.Revised marker reg u) :
    s.Touched marker reg now u where
  sound := h'.sound
  elsewhere slot hreg hdomain := (h'.elsewhere slot hreg).trans (h.elsewhere slot hdomain)
  registration := h'.registration
  domain := by
    rw [h'.issued_eq, find?_congr (h'.elsewhere _ (slot_registration_ne _ _).symm)]
    exact h.domain

/-- No domain comes to be from touching a registration that is deleting. -/
theorem Touched.find?_of_deleting (h : s.Touched marker reg now t)
    (hdeleting : reg.metadata.isDeleting = true) (key : Key) (hnone : s.find? Domain key = none) :
    t.find? Domain key = none := by
  by_cases hkey : key = Binding.domainKey reg
  · subst hkey
    have htouched := h.domain
    rw [hnone] at htouched
    generalize t.issued = issued, t.find? Domain (Binding.domainKey reg) = stored at htouched ⊢
    cases htouched with
    | same => rfl
    | created live => simp [hdeleting] at live
  · rw [find?_congr (h.elsewhere _ (slot_registration_ne _ _).symm fun he => hkey
      (congrArg Slot.key he)), hnone]

theorem Revised.touched (h : s.Revised marker reg t) (now : Time) (hs : s.Sound) :
    s.Touched marker reg now t :=
  (Rebound.refl reg now hs).trans_revised h

end Store

/-! ## The domain -/

namespace Binding

open Port

variable {w : Port} {hostname : String} {r : Reference}

/-- One port is another on which a domain may have been created. -/
def Founded (hostname : String) (r : Reference) (w w' : Port) : Prop :=
  w'.store = w.store ∨ w'.store
    = (w.store.create w.now { Domain.named hostname with spec.registrations := [r] }).store

theorem founded_createDomain (w : Port) (hostname : String) (r : Reference) (context : String) :
    Founded hostname r w ((Pass.require
      (.create { Domain.named hostname with spec.registrations := [r] }) context).exec w).2 := by
  rw [Pass.exec_require]
  rcases hfails : w.failures w.calls with _ | e
  · rw [perform_answers hfails]
    exact .inr rfl
  · rw [perform_fails hfails]
    exact .inl rfl

/-- An attempt to bind that finds no domain creates one or fails, but meets no conflict. -/
theorem founded_tryRegister (hs : w.store.Sound)
    (hnone : w.store.find? Domain { name := hostname } = none) :
    ((tryRegister { name := hostname } r).exec w).1 ≠ .ok none ∧
      Founded hostname r w ((tryRegister { name := hostname } r).exec w).2 := by
  have hget : ∃ e, w.perform (.get Domain { name := hostname }) = (.error e, w.skip) := by
    rcases hfails : w.failures w.calls with _ | e
    · exact ⟨_, by rw [perform_get hs.domain hfails, hnone]; rfl⟩
    · exact ⟨e, perform_fails hfails _⟩
  obtain ⟨e, hget⟩ := hget
  rw [tryRegister, Pass.exec_bind, Pass.exec_ask, hget]
  dsimp only
  split
  · rw [Pass.exec_map _ fun _ => some ()]
    refine ⟨?_, founded_createDomain w.skip hostname r _⟩
    generalize (Pass.exec _ w.skip).1 = answer
    rcases answer with e | d <;> simp [Except.map]
  · exact ⟨by simp, .inl rfl⟩

theorem founded_register (hs : w.store.Sound) (reg : Registration) (attempts : Nat)
    (hnone : w.store.find? Domain { name := reg.hostname } = none) :
    Founded reg.hostname (Resource.reference reg) w ((register reg attempts).exec w).2 := by
  obtain ⟨n, hn⟩ := exists_attempts attempts
  rw [register, hn]
  have hattempt : ∀ v out, v = w →
      (tryRegister (domainKey reg) (Resource.reference reg)).exec v = out →
      out.1 ≠ .ok none ∧ Founded reg.hostname (Resource.reference reg) w out.2 := by
    rintro v out rfl rfl
    exact founded_tryRegister hs hnone
  exact @exec_retrying _ _ _ _ (· = w) (fun out => Founded _ _ w out.2)
    (fun v _ _ hv hp => (hattempt v _ hv hp).2) (fun v _ _ hv hp => (hattempt v _ hv hp).2)
    (fun v _ hv hp => absurd rfl (hattempt v _ hv hp).1) n w rfl

end Binding

namespace Reconciler

open Port

variable {rec : Reconciler} {w : Port} {reg : Registration} {s : Store}

theorem rebound_register (hs : w.store.Sound) (hlive : reg.metadata.isDeleting = false)
    (attempts : Nat) :
    w.store.Rebound reg w.now ((Binding.register reg attempts).exec w).2.store := by
  rcases hd : w.store.find? Domain (Binding.domainKey reg) with _ | d
  · obtain hp | hp := Binding.founded_register hs reg attempts hd <;> rw [hp]
    · exact .refl _ _ hs
    · exact .create w.now hs hlive hd
  · have hout := Binding.exec_register hs reg attempts
    generalize (Binding.register reg attempts).exec w = out at hout ⊢
    cases hout with
    | refused untouched =>
      rw [untouched.store_eq]
      exact .refl _ _ hs
    | listed => exact .refl _ _ hs
    | written absent relisted =>
      have hlist : w.store.listed { name := reg.hostname } = d.spec.registrations :=
        listed_of_find? hd
      rw [hlist] at absent relisted
      rw [References.append_of_not_contains absent] at relisted
      exact .of_relisted hs relisted hd (.listed hlive absent)

theorem rebound_unregister (hs : w.store.Sound) (hdeleting : reg.metadata.isDeleting = true)
    (attempts : Nat) :
    w.store.Rebound reg w.now ((Binding.unregister reg attempts).exec w).2.store := by
  have hout := Binding.exec_unregister hs reg attempts
  generalize (Binding.unregister reg attempts).exec w = out at hout ⊢
  cases hout with
  | failed untouched =>
    rw [untouched.store_eq]
    exact .refl _ _ hs
  | unlisted => exact .refl _ _ hs
  | written contains relisted =>
    obtain ⟨d, hd, -⟩ := exists_of_contains contains
    rw [listed_of_find? hd] at relisted
    exact .of_relisted hs relisted hd (.struck hdeleting)

/-! ## The registration -/

theorem revised_finish (rec : Reconciler) (hs : w.store.Sound)
    (hf : w.store.find? Registration (Resource.key reg) = some reg)
    (hdeleting : reg.metadata.isDeleting = true) (removable : Bool) :
    w.store.Revised rec.finalizer reg ((rec.finish reg removable).exec w).2.store := by
  obtain ⟨-, e, hp⟩ | ⟨hp, -⟩ | ⟨-, hmarked, event, s, hremarked, hp⟩ :=
    exec_finish rec hs hf removable <;> rw [hp]
  · exact .refl _ hs hf
  · exact .refl _ hs hf
  · refine .of_wrote hs hf hremarked.wrote hremarked.others ?_
    change reg.Touched rec.finalizer (s.find? Registration (Resource.key reg))
    rw [hremarked.find?_eq, hdeleting, Bool.true_and]
    split
    · rename_i hbare
      refine .removed hdeleting hmarked fun f hmem => ?_
      simpa using List.filter_eq_nil_iff.1 (List.isEmpty_iff.1 hbare) f hmem
    · exact .unmarked hdeleting _ _

theorem revised_announce (rec : Reconciler) (marker : String) (hs : w.store.Sound)
    (hf : w.store.find? Registration (Resource.key reg) = some reg) :
    w.store.Revised marker reg ((rec.announce reg).exec w).2.store := by
  obtain ⟨-, e, w', -, hp, hstore⟩ | ⟨-, ⟨-, hp⟩ | ⟨-, w', hp, hw, -, hstore⟩⟩ :=
    exec_announce rec hs hf <;> rw [hp]
  · rw [hstore]
    exact .refl _ hs hf
  · exact .refl _ hs hf
  · rw [hstore] at hw ⊢
    exact .put_retold _ hs hf _ hw

/-! ## The pass -/

theorem touched_reconcileDeleting (rec : Reconciler) (hs : w.store.Sound)
    (hf : w.store.find? Registration (Resource.key reg) = some reg)
    (hdeleting : reg.metadata.isDeleting = true) :
    w.store.Touched rec.finalizer reg w.now ((rec.reconcileDeleting reg).exec w).2.store := by
  have hreleased := rebound_unregister hs hdeleting rec.attempts
  have hfv : ((Binding.unregister reg rec.attempts).exec w).2.store.find? Registration
      (Resource.key reg) = some reg := by rw [hreleased.registration_eq, hf]
  rw [reconcileDeleting_eq, Pass.exec_bind, exec_accepted]
  generalize (Binding.unregister reg rec.attempts).exec w = out at hreleased hfv ⊢
  obtain ⟨answer, v⟩ := out
  refine hreleased.trans_revised ?_
  dsimp only
  rw [Pass.exec_bind]
  obtain ⟨-, e, -, hp⟩ | ⟨-, ⟨-, hp⟩ | ⟨-, hw, hp⟩⟩ := exec_report hreleased.sound hfv rfl
    (departure answer).1 reg.status.conditions <;> rw [hp] <;> dsimp only
  · exact .refl _ hreleased.sound hfv
  · exact revised_finish rec (w := v.skip) hreleased.sound hfv hdeleting _
  · generalize reported reg (departure answer).1 reg.status.conditions v.now = status at hw ⊢
    have htold := Revised.put_retold rec.finalizer hreleased.sound hfv status hw
    exact htold.trans_retold hdeleting (revised_finish rec
      (w := v.tell (v.store.put (retold reg status)) (.applied (retold reg status))) htold.sound
      find?_put_self hdeleting _)

theorem touched_reconcileLive (rec : Reconciler) (hs : w.store.Sound)
    (hf : w.store.find? Registration (Resource.key reg) = some reg)
    (hlive : reg.metadata.isDeleting = false) :
    w.store.Touched rec.finalizer reg w.now ((rec.reconcileLive reg).exec w).2.store := by
  rcases hmarked : reg.metadata.hasFinalizer rec.finalizer with _ | _
  · rw [reconcileLive, Pass.exec_bind, Pass.exec_lift]
    obtain ⟨-, e, hp⟩ | ⟨next, event, s, hremarked, hp⟩ := run_ensure hs hf hmarked <;> rw [hp]
    · exact (Revised.refl _ hs hf).touched _ hs
    · refine (Revised.of_wrote hs hf hremarked.wrote hremarked.others ?_).touched _ hs
      rw [hremarked.find?_eq, hlive]
      exact .marked hlive hmarked
  · rw [reconcileLive_of_marked hmarked, Pass.exec_bind]
    have hbound := rebound_register hs hlive rec.attempts
    have hfv := hbound.registration_eq (Resource.key reg)
    rw [hf] at hfv
    generalize (Binding.register reg rec.attempts).exec w = out at hbound hfv ⊢
    obtain ⟨e | _, v⟩ := out
    · exact hbound.trans_revised (.refl _ hbound.sound hfv)
    · exact hbound.trans_revised (revised_announce rec _ hbound.sound hfv)

/-- A pass touches its registration and the domain of its hostname and nothing else, whichever of
its calls fail; it creates no domain for a registration that is deleting, and without a registration
it does nothing. -/
theorem touched_after (rec : Reconciler) (hs : s.Reachable) (v : Visit) :
    (s.find? Registration v.key = none → rec.after s v = s) ∧
    ∀ reg, s.find? Registration v.key = some reg →
      s.Touched rec.finalizer reg v.now (rec.after s v) ∧
      (reg.metadata.isDeleting = true → ∀ key, s.find? Domain key = none →
        (rec.after s v).find? Domain key = none) := by
  have hsound := sound_of_reachable hs
  rcases hread : v.failures 0 with _ | e
  · refine ⟨fun hnone => ?_, fun reg hf => ?_⟩
    · rw [after, exec_reconcile_of_none (w := v.port s) hsound hread hnone]
      rfl
    · have hkey := (hsound.registration.proper hf).key_eq
      have htouched : s.Touched rec.finalizer reg v.now (rec.after s v) := by
        rw [after, exec_reconcile_of_found (w := v.port s) hsound hread hf]
        rw [← hkey] at hf
        rcases hdeleting : reg.metadata.isDeleting with _ | _
        · exact touched_reconcileLive rec (w := (v.port s).skip) hsound hf hdeleting
        · exact touched_reconcileDeleting rec (w := (v.port s).skip) hsound hf hdeleting
      exact ⟨htouched, htouched.find?_of_deleting⟩
  · rw [after_of_failed rec hread]
    exact ⟨fun _ => rfl, fun reg hf => ⟨(Revised.refl _ hsound
      ((hsound.registration.proper hf).key_eq ▸ hf)).touched _ hsound, fun _ _ h => h⟩⟩

/-- A pass that fails to write the status has listed the registration, and that is all. -/
theorem proven_touched :
    (empty.after proving).Reachable ∧
    (empty.after proving).find? Registration (Resource.key proven) = some proven ∧
    (empty.after proving).Touched ({} : Reconciler).finalizer proven .epoch
      (({} : Reconciler).after (empty.after proving) (disturbed 4)) ∧
    (({} : Reconciler).after (empty.after proving) (disturbed 4)).listed { name := "app" }
      = [Resource.reference proven] := by
  have hreach : (empty.after proving).Reachable := ⟨proving, rfl⟩
  have hlisted : (({} : Reconciler).after (empty.after proving) (disturbed 4)).listed
      { name := "app" } = [Resource.reference proven] := by
    decide +kernel
  exact ⟨hreach, verifiable_proven.found,
    ((touched_after {} hreach (disturbed 4)).2 proven verifiable_proven.found).1, hlisted⟩

end Reconciler

end Registrar
