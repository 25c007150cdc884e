import Registrar.Proofs.Passes.Sketch

/-!
# Calm visits in outline

A visit on which no call fails does to the sketch of a store what `Sketch.visit` says, and leaves
every domain its uid (`Reconciler.leads_after`). It is put together from its parts: a binding or a
release changes the domain, what is reported and the finalizer change the registration.
-/

namespace Registrar

open Resource Parts Store

namespace Outline

variable {d : Domain} {r : Reference}

theorem outline_append (h : References.contains d.spec.registrations r = false) :
    (relisted d (References.append d.spec.registrations r)).outline
      = d.outline.arranged true r := by
  have hlists : ¬d.outline.lists r = true := by rw [lists_outline, h]; simp
  rw [References.append_of_not_contains h, arranged, if_neg hlists]
  refine congrArg (Outline.mk _) ?_
  exact Multiset.coe_eq_coe.2 (List.perm_append_singleton _ _)

theorem outline_remove (h : References.contains d.spec.registrations r = true) :
    (relisted d (References.remove d.spec.registrations r)).outline
      = d.outline.arranged false r := by
  have hlists : ¬d.outline.lists r = false := by rw [lists_outline, h]; simp
  rw [arranged, if_neg hlists]
  refine congrArg (Outline.mk _) (Multiset.coe_eq_coe.2 ?_)
  simp only [References.remove, Bool.decide_eq_true]
  exact .refl _

end Outline

namespace Store

variable {s t u : Store} {S T : Sketch} {key : Key}

/-- One store leads to another, which this is a sketch of. -/
structure Leads (s t : Store) (S : Sketch) : Prop where
  sound : t.Sound
  sketch_eq : t.sketch = S
  uids : ∀ key d, s.find? Domain key = some d →
    ∃ d', t.find? Domain key = some d' ∧ d'.metadata.uid = d.metadata.uid

namespace Leads

theorem refl (hs : s.Sound) : s.Leads s s.sketch :=
  ⟨hs, rfl, fun _ d hd => ⟨d, hd, rfl⟩⟩

theorem trans (h : s.Leads t S) (h' : t.Leads u T) : s.Leads u T where
  sound := h'.sound
  sketch_eq := h'.sketch_eq
  uids key d hd := by
    obtain ⟨d', hd', huid⟩ := h.uids key d hd
    obtain ⟨d'', hd'', huid'⟩ := h'.uids key d' hd'
    exact ⟨d'', hd'', huid'.trans huid⟩

theorem find?_eq (h : s.Leads t S) (key : Key) : t.find? Registration key = S.registrations key :=
  congrFun (congrArg Sketch.registrations h.sketch_eq) key

theorem domain_eq (h : s.Leads t S) (key : Key) :
    (t.find? Domain key).map Domain.outline = S.domains key :=
  congrFun (congrArg Sketch.domains h.sketch_eq) key

theorem of_registration (hs : s.Sound) (hw : s.Wrote Registration t)
    (hothers : ∀ key', key' ≠ key → t.find? Registration key' = s.find? Registration key') :
    s.Leads t (s.sketch.enter key (t.find? Registration key)) where
  sound := Sound.wrote (k := .registration) hs hw
  sketch_eq := by
    have hdomains := hw.find?_other (Q := Domain) (by decide)
    refine Sketch.ext (funext fun key' => ?_) (funext fun key' =>
      congrArg (Option.map Domain.outline) (hdomains key'))
    by_cases hkey : key' = key
    · rw [hkey, Sketch.registrations_enter_self]
      rfl
    · rw [Sketch.registrations_enter_of_ne hkey]
      exact hothers key' hkey
  uids key d hd := ⟨d, by rw [hw.find?_other (by decide), hd], rfl⟩

theorem of_domain {o : Option Outline} (hs : s.Sound) (hw : s.Wrote Domain t)
    (hothers : ∀ key', key' ≠ key → t.find? Domain key' = s.find? Domain key')
    (ho : (t.find? Domain key).map Domain.outline = o)
    (huid : ∀ d, s.find? Domain key = some d →
      ∃ d', t.find? Domain key = some d' ∧ d'.metadata.uid = d.metadata.uid) :
    s.Leads t (s.sketch.shape key o) where
  sound := Sound.wrote (k := .domain) hs hw
  sketch_eq := by
    refine Sketch.ext (funext (hw.find?_other (by decide))) (funext fun key' => ?_)
    by_cases hkey : key' = key
    · rw [hkey, Sketch.domains_shape_self]
      exact ho
    · rw [Sketch.domains_shape_of_ne hkey]
      exact congrArg (Option.map Domain.outline) (hothers key' hkey)
  uids key' d hd := by
    by_cases hkey : key' = key
    · exact hkey ▸ huid d (hkey ▸ hd)
    · exact ⟨d, by rw [hothers key' hkey, hd], rfl⟩

end Leads

end Store

namespace Port

variable {w w' : Port}

/-- No call fails. -/
def Calm (w : Port) : Prop :=
  ∀ n, w.failures n = none

theorem Calm.not_fails (h : w.Calm) : ¬w.Fails := by
  rintro ⟨n, e, hfails⟩
  simp [h n] at hfails

theorem Calm.later (h : w.Calm) (hw : w.Before w') : w'.Calm :=
  fun n => (congrFun hw.failures_eq n).trans (h n)

end Port

namespace Binding

open Port

variable {w : Port} {r : Reference} {hostname : String}

/-- A domain that is missing is made if it may have its name. -/
theorem exec_tryRegister_of_none (hs : w.store.Sound) (hcalm : w.Calm)
    (hnone : w.store.find? Domain { name := hostname } = none)
    (hname : Text.trim hostname ≠ "") :
    ∃ u uid, (tryRegister { name := hostname } r).exec w = (.ok (some ()), u) ∧
      w.store.Wrote Domain u.store ∧
      (∀ key, key ≠ { name := hostname } → u.store.find? Domain key = w.store.find? Domain key) ∧
      u.store.find? Domain { name := hostname } = some (stamped
        { Domain.named hostname with spec.registrations := [r] } uid w.now) := by
  have hvalue : w.store.value? Domain { name := hostname } = none := by
    rw [hs.domain.value?_eq, hnone]
    rfl
  have hfault : identityFault? { Domain.named hostname with spec.registrations := [r] } = none := by
    simp [identityFault?, Resource.metadata, Domain.named, Resource.namespaced, hname]
  have hok := isOk_create w.now hfault hvalue
  have hw := wrote_create w.store w.now { Domain.named hostname with spec.registrations := [r] }
  obtain ⟨e, hc⟩ | ⟨new, hnew, -, -, hc⟩ := create_cases (s := w.store) w.now
    { Domain.named hostname with spec.registrations := [r] }
  · simp [hc, Except.isOk, Except.toBool] at hok
  · rw [hc] at hw
    have hcreate : w.skip.perform
        (.create { Domain.named hostname with spec.registrations := [r] })
        = (.ok new, w.skip.tell ({ w.store with issued := w.store.issued + 1 }.put new)
          (.applied new)) := by
      rw [perform_answers (w := w.skip) (hcalm _)]
      simp [Store.perform, Store.told, Port.skip, hc, announced, Port.tell]
    have hexec : (tryRegister { name := hostname } r).exec w = (.ok (some ()),
        w.skip.tell ({ w.store with issued := w.store.issued + 1 }.put new) (.applied new)) := by
      rw [tryRegister, Pass.exec_bind, Pass.exec_ask, perform_get hs.domain (hcalm _), hnone]
      refine (Pass.exec_map (Pass.require _ _) (fun _ => some ()) w.skip).trans ?_
      rw [Pass.exec_require, hcreate]
      rfl
    refine ⟨_, Uid.nth (w.store.issued + 1), hexec, hw, fun key hkey => ?_, ?_⟩
    · change (Store.put { w.store with issued := w.store.issued + 1 } new).find? Domain key = _
      rw [find?_put, if_neg (by rwa [hnew, key_stamped])]
      rfl
    · rw [← hnew]
      have hself : Resource.key new = { name := hostname } := by
        rw [hnew, key_stamped]
        rfl
      rw [← hself]
      exact find?_put_self

variable {reg : Registration} {d : Domain}

/-- No domain may have a blank name, so a binding to one is refused. -/
theorem exec_register_of_blank (hs : w.store.Sound)
    (hname : Text.trim reg.hostname = "") (attempts : Nat) :
    ∃ e u, (register reg attempts).exec w = (.error e, u) ∧ u.store = w.store := by
  have hnone := Reconciler.find?_of_blank hs hname
  have hout := exec_register hs reg attempts
  generalize (register reg attempts).exec w = out at hout
  cases hout with
  | @refused answer u untouched not_done =>
    rcases answer with e | ⟨⟩
    · exact ⟨e, u, rfl, untouched.store_eq⟩
    · exact absurd rfl not_done
  | listed contains =>
    rw [listed_of_none hnone] at contains
    cases contains
  | @written u _ relisted =>
    have hs' : u.store.Sound := Sound.wrote (k := .domain) hs relisted.wrote
    have hcontains : References.contains (u.store.listed { name := reg.hostname })
        (Resource.reference reg) = true := by
      rw [relisted.listed_eq]
      exact References.contains_append_self
    exact absurd hname (Reconciler.trim_ne_of_contains hs' hcontains)

theorem leads_register_of_none (hs : w.store.Sound) (hcalm : w.Calm)
    (hnone : w.store.find? Domain (domainKey reg) = none)
    (hname : Text.trim reg.hostname ≠ "") (attempts : Nat) :
    ∃ u, (register reg attempts).exec w = (.ok (), u) ∧
      w.store.Leads u.store (w.store.sketch.shape (domainKey reg)
        (some ((Outline.unborn reg.hostname w.now).arranged true (Resource.reference reg)))) := by
  obtain ⟨n, hn⟩ := exists_attempts attempts
  obtain ⟨u, uid, hp, hw, hothers, hfound⟩ :=
    exec_tryRegister_of_none (r := Resource.reference reg) hs hcalm hnone hname
  refine ⟨u, ?_, .of_domain hs hw hothers ?_ fun d hd => ?_⟩
  · have hp : (tryRegister (domainKey reg) (Resource.reference reg)).exec w
      = (.ok (some ()), u) := hp
    rw [register, hn, retrying, Pass.exec_bind, hp]
    rfl
  · exact congrArg (Option.map Domain.outline) hfound
  · rw [hnone] at hd
    cases hd

theorem leads_register_of_some (hs : w.store.Sound) (hcalm : w.Calm)
    (hd : w.store.find? Domain (domainKey reg) = some d) (attempts : Nat) :
    ∃ u, (register reg attempts).exec w = (.ok (), u) ∧
      w.store.Leads u.store (w.store.sketch.shape (domainKey reg)
        (some (d.outline.arranged true (Resource.reference reg)))) := by
  have hd' : w.store.find? Domain { name := reg.hostname } = some d := hd
  have hout := exec_register hs reg attempts
  generalize (register reg attempts).exec w = out at hout
  cases hout with
  | refused _ _ _ reason =>
    obtain ⟨hnone, -⟩ := reason.resolve_left hcalm.not_fails
    rw [hd'] at hnone
    cases hnone
  | listed contains =>
    rw [listed_of_find? hd', ← Outline.lists_outline] at contains
    rw [Outline.arranged_of_eq contains, Sketch.shape_self (by simp [Store.sketch, hd])]
    exact ⟨_, rfl, .refl hs⟩
  | @written u absent relisted =>
    rw [listed_of_find? hd'] at absent relisted
    refine ⟨u, rfl, .of_domain hs relisted.wrote relisted.other ?_ fun d' hd' => ?_⟩
    · exact (congrArg (Option.map Domain.outline) (relisted.kept d hd')).trans
        (congrArg some (Outline.outline_append absent))
    · exact ⟨_, relisted.kept d' hd', rfl⟩

theorem leads_unregister (hs : w.store.Sound) (hcalm : w.Calm)
    (reg : Registration) (attempts : Nat) :
    ∃ u, (unregister reg attempts).exec w = (.ok false, u) ∧
      w.store.Leads u.store (w.store.sketch.shape (domainKey reg)
        (Outline.placed false (Resource.reference reg) reg.hostname w.now
          (w.store.sketch.domains (domainKey reg)))) := by
  have hout := exec_unregister hs reg attempts
  generalize (unregister reg attempts).exec w = out at hout
  cases hout with
  | failed _ fails => exact absurd fails hcalm.not_fails
  | unlisted absent =>
    refine ⟨_, rfl, ?_⟩
    rw [Sketch.shape_self]
    · exact .refl hs
    · rcases hd : w.store.find? Domain (domainKey reg) with _ | d
      · simp [Store.sketch, hd, Outline.placed]
      · rw [listed_of_find? hd, ← Outline.lists_outline] at absent
        simp [Store.sketch, hd, Outline.placed, Outline.arranged_of_eq absent]
  | @written u contains relisted =>
    refine ⟨u, rfl, ?_⟩
    obtain ⟨d, hd, -⟩ := Reconciler.exists_of_contains contains
    rw [listed_of_find? hd] at contains relisted
    refine .of_domain hs relisted.wrote relisted.other ?_ fun d' hd' => ?_
    · rw [relisted.kept d hd]
      simp [Store.sketch, hd, Outline.placed, Outline.outline_remove contains]
    · exact ⟨_, relisted.kept d' hd', rfl⟩

end Binding

namespace Reconciler

open Port

variable {rec : Reconciler} {w : Port} {reg o : Registration} {d : Domain} {s : Store}

theorem key_toldOf (reg : Registration) (status : Registration.Status) :
    Resource.key (toldOf reg status) = Resource.key reg := by
  rw [toldOf]
  split
  · rfl
  · exact key_retold reg status

theorem leads_report (hs : w.store.Sound) (hcalm : w.Calm)
    (hf : w.store.find? Registration (Resource.key reg) = some reg)
    (hmeta : o.metadata = reg.metadata) (c : Condition) (previous : List Condition) :
    ∃ u, (report o c previous).exec w = (.ok (toldOf reg (reported o c previous w.now)), u) ∧
      u.store.find? Registration (Resource.key reg)
        = some (toldOf reg (reported o c previous w.now)) ∧
      w.store.Leads u.store (w.store.sketch.enter (Resource.key reg)
        (some (toldOf reg (reported o c previous w.now)))) := by
  obtain ⟨cause, e, hcause, -⟩ | ⟨-, ⟨hsame, hp⟩ | ⟨hne, hw, hp⟩⟩ :=
    exec_report hs hf hmeta c previous
  · simp [hcalm _] at hcause
  · rw [toldOf, if_pos hsame, Sketch.enter_self hf]
    exact ⟨_, hp, hf, .refl hs⟩
  · rw [toldOf, if_neg hne]
    have hfound := find?_put_retold w.store reg (reported o c previous w.now)
    have hothers : ∀ key', key' ≠ Resource.key reg →
        (w.store.put (retold reg (reported o c previous w.now))).find? Registration key'
          = w.store.find? Registration key' := by
      intro key' hkey
      rw [find?_put, key_retold, if_neg hkey]
    exact ⟨_, hp, hfound, hfound ▸ .of_registration hs hw hothers⟩

theorem leads_of_remarked {list : List String} {event : WatchEvent Registration} {t : Store}
    (hs : s.Sound) (h : s.Remarked reg list event t) :
    s.Leads t (s.sketch.enter (Resource.key reg)
      (if reg.metadata.isDeleting && list.isEmpty then none else some (remarked reg list))) :=
  h.find?_eq ▸ .of_registration hs h.wrote h.others

theorem leads_finish (rec : Reconciler) (hs : w.store.Sound) (hcalm : w.Calm)
    (hf : w.store.find? Registration (Resource.key reg) = some reg) :
    w.store.Leads ((rec.finish reg true).exec w).2.store
      (w.store.sketch.enter (Resource.key reg) (rec.departed reg)) := by
  obtain ⟨hfails, -⟩ | ⟨hp, hbare⟩ | ⟨-, hmarked, event, t, hremarked, hp⟩ :=
    exec_finish rec hs hf true
  · exact absurd hfails hcalm.not_fails
  · rw [hp, departed, if_neg (by simp [hbare rfl]), Sketch.enter_self hf]
    exact .refl hs
  · rw [hp, departed, if_pos hmarked]
    exact leads_of_remarked hs hremarked

theorem leads_announce (rec : Reconciler) (hs : w.store.Sound) (hcalm : w.Calm)
    (hf : w.store.find? Registration (Resource.key reg) = some reg)
    (hd : w.store.find? Domain (Binding.domainKey reg) = some d) :
    w.store.Leads ((rec.announce reg).exec w).2.store (w.store.sketch.enter (Resource.key reg)
      (some (toldOf reg (rec.liveStatus reg w.now (.ok d.outline.core))))) := by
  rw [liveStatus_outline, announce, Pass.exec_bind, exec_verified, perform_get_snd,
    perform_domain hs hd (hcalm _)]
  dsimp only
  obtain ⟨u, hp, -, hleads⟩ := leads_report (w := w.skip) hs hcalm hf
    (metadata_verdict rec (.ok d)) (rec.verdict reg (.ok d)).1 reg.status.conditions
  rw [Pass.exec_bind, hp]
  exact hleads

theorem leads_deleting (hs : w.store.Sound) (hcalm : w.Calm)
    (hf : w.store.find? Registration (Resource.key reg) = some reg)
    (hdeleting : reg.metadata.isDeleting = true) :
    w.store.Leads ((rec.reconcileDeleting reg).exec w).2.store
      (w.store.sketch.visit rec w.now (Resource.key reg)) := by
  have hwanted : rec.wanted? reg = some false := if_pos hdeleting
  have hvisit := Sketch.visit_of_some rec w.now hf (S := w.store.sketch)
  simp only [shaped, turned, hwanted, Option.elim_some] at hvisit
  rw [hvisit, reconcileDeleting_eq, Pass.exec_bind, exec_accepted]
  have hbefore := Pass.before_exec (Binding.unregister reg rec.attempts) w
  obtain ⟨u, hp, hstruck⟩ := Binding.leads_unregister hs hcalm reg rec.attempts
  rw [hp] at hbefore ⊢
  dsimp only at hbefore ⊢
  have hcalm' := hcalm.later hbefore
  obtain ⟨u', hp', hfound, htold⟩ := leads_report (o := reg) hstruck.sound hcalm'
    ((hstruck.find?_eq _).trans hf) rfl (departure (.ok false)).1 reg.status.conditions
  have hbefore' := Pass.before_exec (report reg (departure (.ok false)).1 reg.status.conditions) u
  rw [Pass.exec_bind, hp']
  rw [hp'] at hbefore'
  rw [hbefore.now_eq] at hfound htold
  rw [← key_toldOf reg] at hfound
  have hfinish := leads_finish rec htold.sound (hcalm'.later hbefore') hfound
  rw [htold.sketch_eq, hstruck.sketch_eq, key_toldOf, Sketch.enter_enter] at hfinish
  have hdone := hstruck.trans (htold.trans hfinish)
  rw [← hbefore.now_eq] at hdone ⊢
  exact hdone

theorem leads_unmarked (hs : w.store.Sound) (hcalm : w.Calm)
    (hf : w.store.find? Registration (Resource.key reg) = some reg)
    (hlive : reg.metadata.isDeleting = false)
    (hbare : reg.metadata.hasFinalizer rec.finalizer = false) :
    w.store.Leads ((rec.reconcileLive reg).exec w).2.store
      (w.store.sketch.visit rec w.now (Resource.key reg)) := by
  have hwanted : rec.wanted? reg = none := by simp [wanted?, hlive, hbare]
  have hvisit := Sketch.visit_of_some rec w.now hf (S := w.store.sketch)
  simp only [shaped, turned, hwanted, Option.elim_none, Sketch.shape_self] at hvisit
  rw [hvisit, reconcileLive, Pass.exec_bind, Pass.exec_lift]
  obtain ⟨hfails, -⟩ | ⟨next, event, t, hremarked, hp⟩ := run_ensure hs hf hbare
  · exact absurd hfails hcalm.not_fails
  · rw [hp]
    have hleads := leads_of_remarked hs hremarked
    rwa [hlive, Bool.false_and, if_neg (by simp)] at hleads

/-- A registration that is bound is told what its domain says. -/
theorem leads_bound (hcalm : w.Calm)
    (hf : w.store.find? Registration (Resource.key reg) = some reg) {u : Port} {domain : Outline}
    (hp : (Binding.register reg rec.attempts).exec w = (.ok (), u))
    (hbound : w.store.Leads u.store
      (w.store.sketch.shape (Binding.domainKey reg) (some domain))) :
    w.store.Leads
      ((Binding.register reg rec.attempts >>= fun _ => rec.announce reg).exec w).2.store
      ((w.store.sketch.shape (Binding.domainKey reg) (some domain)).enter (Resource.key reg)
        (some (toldOf reg (rec.liveStatus reg w.now (.ok domain.core))))) := by
  have hbefore := Pass.before_exec (Binding.register reg rec.attempts) w
  rw [Pass.exec_bind, hp]
  rw [hp] at hbefore
  have hdomain := hbound.domain_eq (Binding.domainKey reg)
  rw [Sketch.domains_shape_self] at hdomain
  obtain ⟨d, hd, rfl⟩ := Option.map_eq_some_iff.1 hdomain
  have htold := leads_announce rec hbound.sound (hcalm.later hbefore)
    ((hbound.find?_eq _).trans hf) hd
  rw [hbound.sketch_eq, hbefore.now_eq] at htold
  exact hbound.trans htold

theorem leads_marked (hs : w.store.Sound) (hcalm : w.Calm)
    (hf : w.store.find? Registration (Resource.key reg) = some reg)
    (hlive : reg.metadata.isDeleting = false)
    (hmarked : reg.metadata.hasFinalizer rec.finalizer = true) :
    w.store.Leads ((rec.reconcileLive reg).exec w).2.store
      (w.store.sketch.visit rec w.now (Resource.key reg)) := by
  have hwanted : rec.wanted? reg = some true := by simp [wanted?, hlive, hmarked]
  have hvisit := Sketch.visit_of_some rec w.now hf (S := w.store.sketch)
  simp only [shaped, turned, hwanted, Option.elim_some] at hvisit
  rw [hvisit, reconcileLive_of_marked hmarked]
  rcases hd : w.store.find? Domain (Binding.domainKey reg) with _ | d
  · have hdomain : w.store.sketch.domains (Binding.domainKey reg) = none := by
      simp [Store.sketch, hd]
    by_cases hname : Text.trim reg.hostname = ""
    · obtain ⟨e, u, hp, hsame⟩ := Binding.exec_register_of_blank hs hname rec.attempts
      rw [hdomain, Outline.placed_of_blank hname, Sketch.shape_self hdomain, Option.elim_none,
        Sketch.enter_self hf, Pass.exec_bind, hp, hsame]
      exact .refl hs
    · obtain ⟨u, hp, hbound⟩ := Binding.leads_register_of_none hs hcalm hd hname rec.attempts
      rw [hdomain, Outline.placed_of_named hname, Option.elim_some]
      exact leads_bound hcalm hf hp hbound
  · obtain ⟨u, hp, hbound⟩ := Binding.leads_register_of_some hs hcalm hd rec.attempts
    have hdomain : w.store.sketch.domains (Binding.domainKey reg) = some d.outline := by
      simp [Store.sketch, hd]
    rw [hdomain, Outline.placed, Option.elim_some]
    exact leads_bound hcalm hf hp hbound

/-- A calm visit does to the sketch of a store what passes do to sketches. -/
theorem leads_after (hs : s.Sound) {v : Visit} (hcalm : v.Calm) :
    s.Leads (rec.after s v) (s.sketch.visit rec v.now v.key) := by
  rcases hf : s.find? Registration v.key with _ | reg
  · rw [after, exec_reconcile_of_none (w := v.port s) hs (hcalm 0) hf,
      Sketch.visit_of_none rec v.now hf]
    exact .refl hs
  · have hkey := (hs.registration.proper hf).key_eq
    rw [after, exec_reconcile_of_found (w := v.port s) hs (hcalm 0) hf, ← hkey]
    rw [← hkey] at hf
    rcases hdeleting : reg.metadata.isDeleting with _ | _
    · rw [if_neg (by simp)]
      rcases hmarked : reg.metadata.hasFinalizer rec.finalizer with _ | _
      · exact leads_unmarked (w := (v.port s).skip) hs hcalm hf hdeleting hmarked
      · exact leads_marked (w := (v.port s).skip) hs hcalm hf hdeleting hmarked
    · rw [if_pos rfl]
      exact leads_deleting (w := (v.port s).skip) hs hcalm hf hdeleting

end Reconciler

end Registrar
