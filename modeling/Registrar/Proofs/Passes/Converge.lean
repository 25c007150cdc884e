import Registrar.Proofs.Passes.Visits

/-!
# Convergence

A registration is at rest when a pass over it finds nothing to do, whenever it reads the clock. On
calm visits it comes to rest in two steps at most: a live one is marked by the first and bound by
the second, one that is deleting is released by the first. Visits of others leave it at rest, so
after two visits of each everything is at rest (`converged_of_visited_twice`).
-/

namespace Registrar

open Resource Parts Store

theorem Condition.merge_merge (c : Condition) (previous : List Condition) (now now' : Time) :
    merge [c] (merge [c] previous now) now' = merge [c] previous now := by
  have hsince : since? (merge [c] previous now) c = some ((since? previous c).getD now) := by
    simp [since?, find?, merge, Option.filter]
  rw [merge, List.map_singleton, hsince]
  rfl

namespace Reconciler

open Port

variable {rec : Reconciler} {reg : Registration} {d : Domain} {s t : Store} {key : Key} {v : Visit}
  {now : Time}

/-- The verdict on a registration that tells the verdict already is the same. -/
theorem verdict_restated (rec : Reconciler) (reg : Registration) (version : UInt64) (now : Time)
    (d : Domain) :
    (rec.verdict (reg.restated version (rec.liveStatus reg now (.ok d))) (.ok d)).1
      = (rec.verdict reg (.ok d)).1 ∧
    (rec.verdict (reg.restated version (rec.liveStatus reg now (.ok d)))
        (.ok d)).2.status.dnsRecords
      = (rec.verdict reg (.ok d)).2.status.dnsRecords := by
  rcases hkey : d.spec.verificationKey with _ | verificationKey
  · rw [liveStatus, verdict_of_keyless rec _ hkey, verdict_of_keyless rec _ hkey]
    exact ⟨rfl, rfl⟩
  · rcases hname : Hostname.recordName rec.verifier.label d.hostname with e | name
    · rw [liveStatus, verdict_of_unnamed rec _ hkey hname, verdict_of_unnamed rec _ hkey hname]
      exact ⟨rfl, rfl⟩
    · have hholds := holds_liveStatus rec reg now (.ok d)
      simp only [verdict_of_named rec _ hkey hname] at hholds ⊢
      refine ⟨?_, rfl⟩
      rw [Registration.restated, hholds]
      cases Condition.holds reg.status.conditions .verified <;> rfl

theorem liveStatus_restated (rec : Reconciler) (reg : Registration) (version : UInt64)
    (now now' : Time) (d : Domain) :
    rec.liveStatus (reg.restated version (rec.liveStatus reg now (.ok d))) now' (.ok d)
      = rec.liveStatus reg now (.ok d) := by
  obtain ⟨hcondition, hrecords⟩ := verdict_restated rec reg version now d
  have hconditions : (reg.restated version (rec.liveStatus reg now (.ok d))).status.conditions
      = Condition.merge [(rec.verdict reg (.ok d)).1] reg.status.conditions now := rfl
  rw [liveStatus, reported, hcondition, hconditions, Condition.merge_merge, hrecords]
  rfl

theorem deletingStatus_of_told {reg' : Registration} {answer : Except PassError Bool}
    (h : reg'.status = deletingStatus reg now answer) (now' : Time) :
    deletingStatus reg' now' answer = reg'.status := by
  have hconditions : reg'.status.conditions
      = Condition.merge [(departure answer).1] reg.status.conditions now := by
    rw [h]
    rfl
  rw [deletingStatus, reported, hconditions, Condition.merge_merge, ← hconditions]

/-! ## Coming to rest -/

/-- A pass over a key finds nothing to do, whenever it reads the clock. -/
def AtRest (rec : Reconciler) (key : Key) (s : Store) : Prop :=
  ∀ now, rec.Settled key now s

/-- The registration of a key is live and has been marked. -/
def Begun (rec : Reconciler) (key : Key) (s : Store) : Prop :=
  ∃ reg, s.find? Registration key = some reg ∧ reg.metadata.isDeleting = false ∧
    reg.metadata.hasFinalizer rec.finalizer = true

theorem not_fails_port (h : v.Calm) (s : Store) : ¬(v.port s).Fails := by
  rintro ⟨n, e, hfails⟩
  simp [Visit.port, h n] at hfails

theorem begun_after (hs : s.Sound) (hcalm : v.Calm) (hf : s.find? Registration v.key = some reg)
    (hlive : reg.metadata.isDeleting = false)
    (hbare : reg.metadata.hasFinalizer rec.finalizer = false) :
    rec.Begun v.key (rec.after s v) := by
  have hkey := (hs.registration.proper hf).key_eq
  rw [after, exec_reconcile_of_found (w := v.port s) hs (hcalm 0) hf, hlive, ← hkey]
  rw [← hkey] at hf
  rw [if_neg (by simp), reconcileLive, Pass.exec_bind, Pass.exec_lift]
  obtain ⟨hfails, -⟩ | ⟨next, event, t, hremarked, hp⟩ :=
    run_ensure (w := (v.port s).skip) hs hf hbare
  · exact absurd hfails (not_fails_port hcalm s)
  · rw [hp]
    have hfound := hremarked.find?_eq
    rw [hlive, Bool.false_and, if_neg (by simp)] at hfound
    refine ⟨_, hfound, hlive, ?_⟩
    change (reg.metadata.finalizers ++ [rec.finalizer]).contains rec.finalizer = true
    simp

theorem atRest_after_of_begun (hs : s.Sound) (hcalm : v.Calm) (h : rec.Begun v.key s) :
    rec.AtRest v.key (rec.after s v) := by
  obtain ⟨reg, hf, hlive, hmarked⟩ := h
  have hkey := (hs.registration.proper hf).key_eq
  rw [after_of_marked hs (hcalm 0) hf hlive hmarked, Pass.exec_bind, ← hkey]
  rw [← hkey] at hf
  have hout := Binding.exec_register (w := (v.port s).skip) hs reg rec.attempts
  have hconfined := confined_register (w := (v.port s).skip) rec.finalizer hs reg rec.attempts
  have hbefore := Pass.before_exec (Binding.register reg rec.attempts) (v.port s).skip
  have hkept := hout.registrations (Resource.key reg)
  generalize (Binding.register reg rec.attempts).exec (v.port s).skip = out at *
  obtain ⟨e | ⟨⟩, u⟩ := out
  · cases hout with
    | refused untouched _ _ reason =>
      obtain ⟨hnowhere, hblank⟩ := reason.resolve_left (not_fails_port hcalm s)
      intro now
      refine .refused (hkept.trans hf) hlive hmarked ?_ hblank
      rw [untouched.store_eq]
      exact hnowhere
  · have hfu : u.store.find? Registration (Resource.key reg) = some reg := hkept.trans hf
    have hcontains : References.contains (u.store.listed (Binding.domainKey reg))
        (Resource.reference reg) = true := by
      cases hout with
      | refused _ not_done => exact absurd rfl not_done
      | listed contains => exact contains
      | written _ relisted =>
        change References.contains (u.store.listed { name := reg.hostname }) _ = true
        rw [relisted.listed_eq]
        exact References.contains_append_self
    have hfailures : ∀ n, u.failures n = none := fun n =>
      (congrFun hbefore.failures_eq n).trans (hcalm n)
    obtain ⟨d, hd, hlisted⟩ := exists_of_contains hcontains
    obtain ⟨hrefused, -⟩ | ⟨-, ⟨version, htold⟩, hdomains⟩ :=
      restated_announce rec hconfined.sound hfu
    · exact absurd (hfailures _) hrefused
    · rw [perform_domain hconfined.sound hd (hfailures _)] at htold
      intro now
      exact .verified htold hlive hmarked ((hdomains _).trans hd) hlisted
        (liveStatus_restated rec reg version u.now now d)

/-- A report that does not fail becomes the status. -/
theorem restated_report {w : Port} (hs : w.store.Sound) (hanswers : w.failures w.calls = none)
    (hf : w.store.find? Registration (Resource.key reg) = some reg) (c : Condition)
    (previous : List Condition) :
    ∃ version stored u, stored = reg.restated version (reported reg c previous w.now) ∧
      (report reg c previous).exec w = (.ok stored, u) ∧
      u.store.find? Registration (Resource.key stored) = some stored ∧
      w.store.Wrote Registration u.store := by
  obtain ⟨cause, e, hcause, -⟩ | ⟨-, ⟨hsame, hp⟩ | ⟨-, hw, hp⟩⟩ :=
    exec_report hs hf rfl c previous
  · simp [hanswers] at hcause
  · refine ⟨reg.metadata.resourceVersion, reg, w.skip, ?_, hp, hf, .same⟩
    rw [hsame]
    rfl
  · exact ⟨reg.metadata.resourceVersion + 1, _, _, rfl, hp, find?_put_retold _ _ _, hw⟩

/-- A deleting registration of which nothing is listed is at rest once it has been told so and does
not hold the finalizer. -/
theorem atRest_finish (rec : Reconciler) {w : Port} (hs : w.store.Sound) (hcalm : ¬w.Fails)
    (hf : w.store.find? Registration (Resource.key reg) = some reg)
    (hdeleting : reg.metadata.isDeleting = true)
    (habsent : References.contains (w.store.listed (Binding.domainKey reg))
      (Resource.reference reg) = false)
    (hsame : ∀ now, deletingStatus reg now (.ok false) = reg.status) :
    rec.AtRest (Resource.key reg) ((rec.finish reg true).exec w).2.store ∧
    ∀ key, ((rec.finish reg true).exec w).2.store.listed key = w.store.listed key := by
  obtain ⟨hfails, -⟩ | ⟨hp, hbare⟩ | ⟨-, -, event, t, hremarked, hp⟩ := exec_finish rec hs hf true
  · exact absurd hfails hcalm
  · rw [hp]
    exact ⟨fun now => .released hf hdeleting habsent (hbare rfl) (hsame now), fun _ => rfl⟩
  · rw [hp]
    have hlisted := listed_of_wrote hremarked.wrote
    refine ⟨fun now => ?_, hlisted⟩
    have hfound := hremarked.find?_eq
    split at hfound
    · exact .missing hfound
    · refine .released hfound hdeleting ?_ ?_ (hsame now)
      · change References.contains (t.listed (Binding.domainKey reg)) (Resource.reference reg)
          = false
        rw [hlisted, habsent]
      · change (reg.metadata.finalizers.filter (· != rec.finalizer)).contains rec.finalizer = false
        simp

theorem atRest_after_of_deleting (rec : Reconciler) (hs : s.Sound) (hcalm : v.Calm)
    (hf : s.find? Registration v.key = some reg) (hdeleting : reg.metadata.isDeleting = true) :
    rec.AtRest v.key (rec.after s v) ∧ References.contains
      ((rec.after s v).listed (Binding.domainKey reg)) (Resource.reference reg) = false := by
  have hkey := (hs.registration.proper hf).key_eq
  rw [after, exec_reconcile_of_found (w := v.port s) hs (hcalm 0) hf, hdeleting, if_pos rfl, ← hkey]
  rw [← hkey] at hf
  rw [reconcileDeleting_eq, Pass.exec_bind, exec_accepted]
  have hout := Binding.exec_unregister (w := (v.port s).skip) hs reg rec.attempts
  have hbefore := Pass.before_exec (Binding.unregister reg rec.attempts) (v.port s).skip
  obtain ⟨hsu, hkept⟩ := hout.registrations hs
  generalize (Binding.unregister reg rec.attempts).exec (v.port s).skip = out at *
  obtain ⟨answer, u⟩ := out
  have hreleased : answer = .ok false ∧ References.contains
      (u.store.listed (Binding.domainKey reg)) (Resource.reference reg) = false := by
    cases hout with
    | failed _ fails => exact absurd fails (not_fails_port hcalm s)
    | unlisted absent => exact ⟨rfl, absent⟩
    | written _ relisted =>
      rw [relisted.listed_eq]
      exact ⟨rfl, References.not_contains_remove_self⟩
  obtain ⟨rfl, habsent⟩ := hreleased
  have hfu : u.store.find? Registration (Resource.key reg) = some reg := (hkept _).trans hf
  have hfailures : ∀ n, u.failures n = none := fun n =>
    (congrFun hbefore.failures_eq n).trans (hcalm n)
  obtain ⟨version, _, u', rfl, hp, hfu', hw⟩ := restated_report hsu (hfailures _) hfu
    (departure (.ok false)).1 reg.status.conditions
  have hbefore' := Pass.before_exec (report reg (departure (.ok false)).1 reg.status.conditions) u
  dsimp only
  rw [Pass.exec_bind, hp]
  rw [hp] at hbefore'
  have hcalm' : ¬u'.Fails := by
    rintro ⟨n, e, hfails⟩
    rw [hbefore'.failures_eq, hfailures] at hfails
    simp at hfails
  -- What is told changes neither where the registration is stored nor where it is listed.
  rw [← listed_of_wrote hw] at habsent
  obtain ⟨hrest, hlisted⟩ := atRest_finish rec (Sound.wrote (k := .registration) hsu hw) hcalm'
    hfu' hdeleting habsent (deletingStatus_of_told rfl)
  exact ⟨hrest, (congrArg (References.contains · _) (hlisted _)).trans habsent⟩

/-! ## Staying at rest -/

theorem contains_of_confined {marker : String} (h : s.Confined marker key t)
    (hne : Resource.key reg ≠ key) (domainKey : Key) :
    References.contains (t.listed domainKey) (Resource.reference reg)
      = References.contains (s.listed domainKey) (Resource.reference reg) := by
  rw [← contains_listedOf t, ← contains_listedOf s, key_reference, h.listedOf_eq _ hne]

/-- A pass over another key leaves a settled registration settled. -/
theorem settled_of_confined {marker : String} {other : Key} (h : rec.Settled key now s)
    (hs : s.Sound) (hconfined : s.Confined marker other t) (hne : key ≠ other) :
    rec.Settled key now t := by
  have hkey : ∀ {reg}, s.find? Registration key = some reg → Resource.key reg ≠ other :=
    fun hf => (hs.registration.proper hf).key_eq ▸ hne
  have hkept := hconfined.others key hne
  cases h with
  | missing none => exact .missing (hkept.trans none)
  | released found deleting absent bare same =>
    refine .released (hkept.trans found) deleting ?_ bare same
    rw [contains_of_confined hconfined (hkey found), absent]
  | refused found live marked nowhere blank =>
    exact .refused (hkept.trans found) live marked (find?_of_blank hconfined.sound blank) blank
  | @verified reg d found live marked domain contains same =>
    obtain ⟨d', hd', hverification, hstatus⟩ := hconfined.domains _ d domain
    have hname : d'.hostname = d.hostname := by
      rw [hostname_of_find? hconfined.sound hd', hostname_of_find? hs domain]
    refine .verified (hkept.trans found) live marked hd' ?_ ?_
    · rw [← listed_of_find? hd', contains_of_confined hconfined (hkey found),
        listed_of_find? domain, contains]
    · rw [← same, liveStatus, liveStatus, verdict_congr rec reg hname hverification hstatus]

theorem AtRest.after_other (h : rec.AtRest key s) (hs : s.Sound) (hne : v.key ≠ key) :
    rec.AtRest key (rec.after s v) :=
  fun now => settled_of_confined (h now) hs (confined_after rec hs v) (Ne.symm hne)

theorem AtRest.after_own (h : rec.AtRest v.key s) (hs : s.Sound) (hcalm : v.Calm) :
    rec.after s v = s := by
  rw [after, Visit.port_of_calm hcalm]
  exact (steady_iff_settled hs).2 (h v.now)

theorem Begun.after_other (h : rec.Begun key s) (hs : s.Sound) (hne : v.key ≠ key) :
    rec.Begun key (rec.after s v) := by
  obtain ⟨reg, hf, hlive, hmarked⟩ := h
  exact ⟨reg, ((confined_after rec hs v).others key (Ne.symm hne)).trans hf, hlive, hmarked⟩

/-- The first calm visit of a key marks its registration or brings it to rest. -/
theorem begun_or_atRest_after (hs : s.Sound) (hcalm : v.Calm) :
    rec.Begun v.key (rec.after s v) ∨ rec.AtRest v.key (rec.after s v) := by
  rcases hf : s.find? Registration v.key with _ | reg
  · have hrest : rec.AtRest v.key s := fun now => .missing hf
    rw [hrest.after_own hs hcalm]
    exact .inr hrest
  · rcases hdeleting : reg.metadata.isDeleting with _ | _
    · rcases hmarked : reg.metadata.hasFinalizer rec.finalizer with _ | _
      · exact .inl (begun_after hs hcalm hf hdeleting hmarked)
      · exact .inr (atRest_after_of_begun hs hcalm ⟨reg, hf, hdeleting, hmarked⟩)
    · exact .inr (atRest_after_of_deleting rec hs hcalm hf hdeleting).1

/-- What is known of a key after so many calm visits of it. -/
def Advanced (rec : Reconciler) (key : Key) (s : Store) : Nat → Prop
  | 0 => True
  | 1 => rec.Begun key s ∨ rec.AtRest key s
  | _ + 2 => rec.AtRest key s

theorem Advanced.after_other {n : Nat} (h : rec.Advanced key s n) (hs : s.Sound)
    (hne : v.key ≠ key) : rec.Advanced key (rec.after s v) n := by
  match n, h with
  | 0, _ => trivial
  | 1, .inl h => exact .inl (h.after_other hs hne)
  | 1, .inr h => exact .inr (h.after_other hs hne)
  | _ + 2, h => exact AtRest.after_other h hs hne

theorem Advanced.after_own {n : Nat} (h : rec.Advanced v.key s n) (hs : s.Sound) (hcalm : v.Calm) :
    rec.Advanced v.key (rec.after s v) (n + 1) := by
  match n, h with
  | 0, _ => exact begun_or_atRest_after hs hcalm
  | 1, .inl h => exact atRest_after_of_begun hs hcalm h
  | 1, .inr h =>
    rw [AtRest.after_own h hs hcalm]
    exact h
  | _ + 2, h =>
    rw [AtRest.after_own h hs hcalm]
    exact h

/-- What each visit of a key advances, and no visit of another key takes back, has advanced by the
number of visits of the key. -/
theorem counted_afterAll (key : Key) (P : Store → Nat → Prop)
    (others : ∀ (s : Store) v n, s.Sound → v.key ≠ key → P s n → P (rec.after s v) n)
    (own : ∀ (s : Store) v n, s.Sound → v.Calm → v.key = key → P s n →
      P (rec.after s v) (n + 1)) :
    ∀ (visits : List Visit) {s : Store} {n : Nat}, s.Sound → (∀ v ∈ visits, v.Calm) → P s n →
      P (rec.afterAll s visits) (n + (visits.map Visit.key).count key)
  | [], _, _, _, _, h => h
  | v :: visits, s, n, hs, hcalm, h => by
    have hs' := (confined_after rec hs v).sound
    have hcalm' : ∀ v ∈ visits, v.Calm := fun u hu => hcalm u (List.mem_cons_of_mem _ hu)
    by_cases hkey : v.key = key
    · have h' := counted_afterAll key P others own visits hs' hcalm'
        (own s v n hs (hcalm v List.mem_cons_self) hkey h)
      rw [List.map_cons, hkey, List.count_cons_self]
      rwa [Nat.add_right_comm, Nat.add_assoc] at h'
    · rw [List.map_cons, List.count_cons_of_ne hkey]
      exact counted_afterAll key P others own visits hs' hcalm' (others s v n hs hkey h)

theorem atRest_afterAll (hs : s.Sound) {visits : List Visit} (hcalm : ∀ v ∈ visits, v.Calm)
    (htwice : (s.find? Registration key).isSome → 2 ≤ (visits.map Visit.key).count key) :
    rec.AtRest key (rec.afterAll s visits) := by
  rcases hf : s.find? Registration key with _ | reg
  · have hstays := stays_afterAll rec key visits hs
    rw [hf] at hstays
    generalize hf' : (rec.afterAll s visits).find? Registration key = o at hstays
    cases hstays
    exact fun now => .missing hf'
  · have hadvanced : rec.Advanced key (rec.afterAll s visits)
        (0 + (visits.map Visit.key).count key) :=
      counted_afterAll key (rec.Advanced key) (fun _ _ _ hs hne h => h.after_other hs hne)
        (fun _ _ _ hs hcalm hkey h => hkey ▸ (hkey ▸ h).after_own hs hcalm) visits hs hcalm trivial
    obtain ⟨n, hn⟩ := Nat.exists_eq_add_of_le' (htwice (by rw [hf]; rfl))
    rwa [Nat.zero_add, hn] at hadvanced

theorem reference_congr {reg' : Registration} (hkey : Resource.key reg' = Resource.key reg)
    (huid : (Resource.metadata reg').uid = (Resource.metadata reg).uid) :
    Resource.reference reg' = Resource.reference reg := by
  have hns : (Resource.metadata reg').ns? = (Resource.metadata reg).ns? := congrArg Key.ns? hkey
  have hname : (Resource.metadata reg').name = (Resource.metadata reg).name :=
    congrArg Key.name hkey
  simp only [Resource.reference, hns, hname, huid]

/-- What is known of a registration that was being deleted, after so many calm visits of it. -/
def Struck (rec : Reconciler) (reg : Registration) (s : Store) : Nat → Prop
  | 0 => ∃ reg', s.find? Registration (Resource.key reg) = some reg' ∧ reg.Kept rec.finalizer reg' ∧
    reg'.metadata.isDeleting = true
  | _ + 1 => rec.AtRest (Resource.key reg) s ∧
    References.contains (s.listed (Binding.domainKey reg)) (Resource.reference reg) = false

theorem Struck.after_other {n : Nat} (h : rec.Struck reg s n) (hs : s.Sound)
    (hne : v.key ≠ Resource.key reg) : rec.Struck reg (rec.after s v) n := by
  have hconfined := confined_after rec hs v
  match n, h with
  | 0, ⟨reg', hf, h⟩ => exact ⟨reg', (hconfined.others _ (Ne.symm hne)).trans hf, h⟩
  | _ + 1, ⟨hrest, habsent⟩ =>
    refine ⟨hrest.after_other hs hne, ?_⟩
    rw [contains_of_confined hconfined (Ne.symm hne), habsent]

theorem Struck.after_own {n : Nat} (h : rec.Struck reg s n) (hs : s.Sound) (hcalm : v.Calm)
    (hkey : v.key = Resource.key reg) : rec.Struck reg (rec.after s v) (n + 1) := by
  match n, h with
  | 0, ⟨reg', hf, hkept, hdeleting⟩ =>
    have hkey' := (hs.registration.proper hf).key_eq
    rw [← hkey] at hf
    obtain ⟨hrest, habsent⟩ := atRest_after_of_deleting rec hs hcalm hf hdeleting
    rw [hkey] at hrest
    have huid : (Resource.metadata reg').uid = (Resource.metadata reg).uid := hkept.uid_eq
    have hkeys : Resource.key reg' = Resource.key reg := hkey'
    rw [reference_congr hkeys huid, domainKey_congr hkeys hkept.spec_eq] at habsent
    exact ⟨hrest, habsent⟩
  | _ + 1, ⟨hrest, habsent⟩ =>
    rw [← hkey] at hrest
    rw [hrest.after_own hs hcalm]
    exact ⟨hkey ▸ hrest, habsent⟩

/-! ## Convergence -/

/-- A pass that leaves the store as it is tells nothing. -/
theorem told_of_steady (hs : s.Sound) (h : ((rec.reconcile key).exec (calm s now)).2.store = s) :
    ((rec.reconcile key).exec (calm s now)).2.told = [] := by
  have hcalm : ¬(calm s now).skip.Fails := not_fails_calm s now
  rcases hf : s.find? Registration key with _ | reg
  · rw [exec_reconcile_of_none (w := calm s now) hs rfl hf]
    rfl
  · obtain rfl := (hs.registration.proper hf).key_eq
    rw [exec_reconcile_of_found (w := calm s now) hs rfl hf] at h ⊢
    split at h
    · rename_i hdeleting
      rw [if_pos hdeleting]
      have hend := exec_reconcileDeleting rec (w := (calm s now).skip) hs hf
      have hout := Binding.exec_unregister (w := (calm s now).skip) hs reg rec.attempts
      generalize (rec.reconcileDeleting reg).exec (calm s now).skip = ended at *
      cases hend with
      | failed fails => exact absurd fails hcalm
      | told _ _ changed => exact absurd (h ▸ hf) changed
      | silent =>
        generalize (Binding.unregister reg rec.attempts).exec (calm s now).skip = out at *
        cases hout with
        | failed _ fails => exact absurd fails hcalm
        | unlisted => rfl
        | @written w' contains relisted =>
          have hsame : w'.store = s := h
          have hgone := relisted.listed_eq
          rw [hsame] at hgone
          exact absurd hgone.symm (References.remove_ne_iff.2 contains)
    · rename_i hlive
      rw [if_neg hlive]
      have hend := exec_reconcileLive rec (w := (calm s now).skip) hs hf
      generalize (rec.reconcileLive reg).exec (calm s now).skip = ended at *
      cases hend with
      | failed fails => exact absurd fails hcalm
      | marked _ changed | told _ _ _ changed => exact absurd (h ▸ hf) changed
      | refused _ untouched => exact untouched.told_eq
      | bound absent contains =>
        rw [h] at contains
        exact absurd (contains.symm.trans absent) (by simp)
      | silent => rfl

/-- Passes have led from one store to the other, and have done all there is to do. -/
structure Converged (rec : Reconciler) (s t : Store) : Prop where
  stays : ∀ key,
    Registration.Stays rec.finalizer (s.find? Registration key) (t.find? Registration key)
  /-- A live registration is bound, and told whether it is verified. -/
  bound : ∀ key reg, t.find? Registration key = some reg → reg.metadata.isDeleting = false →
    Text.trim reg.hostname ≠ "" →
    reg.metadata.hasFinalizer rec.finalizer = true ∧
    References.contains (t.listed (Binding.domainKey reg)) (Resource.reference reg) = true ∧
    ∃ c, reg.status.conditions = [c] ∧ c.aspect = .verified
  /-- A deleting registration is released. -/
  released : ∀ key reg, t.find? Registration key = some reg → reg.metadata.isDeleting = true →
    reg.metadata.hasFinalizer rec.finalizer = false ∧
    References.contains (t.listed (Binding.domainKey reg)) (Resource.reference reg) = false
  /-- One that was being deleted is released even if it is gone. -/
  struck : ∀ key reg, s.find? Registration key = some reg → reg.metadata.isDeleting = true →
    References.contains (t.listed (Binding.domainKey reg)) (Resource.reference reg) = false
  gone : ∀ key reg, s.find? Registration key = some reg → reg.metadata.isDeleting = true →
    (∀ f ∈ reg.metadata.finalizers, f = rec.finalizer) → t.find? Registration key = none
  rest : ∀ key now, ((rec.reconcile key).exec (calm t now)).2.store = t ∧
    ((rec.reconcile key).exec (calm t now)).2.told = []

theorem AtRest.bound (h : rec.AtRest key s) (hf : s.find? Registration key = some reg)
    (hlive : reg.metadata.isDeleting = false) (hnamed : Text.trim reg.hostname ≠ "") :
    reg.metadata.hasFinalizer rec.finalizer = true ∧
    References.contains (s.listed (Binding.domainKey reg)) (Resource.reference reg) = true ∧
    ∃ c, reg.status.conditions = [c] ∧ c.aspect = .verified := by
  obtain ⟨marked, ⟨-, blank⟩ | ⟨d, domain, contains, same⟩⟩ :=
    (settled_live_iff hf hlive).1 (h .epoch)
  · exact absurd blank hnamed
  · refine ⟨marked, ?_, ?_⟩
    · rw [listed_of_find? domain, contains]
    · rw [← same]
      exact ⟨_, rfl, aspect_verdict rec reg (.ok d)⟩

theorem AtRest.released (h : rec.AtRest key s) (hf : s.find? Registration key = some reg)
    (hdeleting : reg.metadata.isDeleting = true) :
    reg.metadata.hasFinalizer rec.finalizer = false ∧
    References.contains (s.listed (Binding.domainKey reg)) (Resource.reference reg) = false := by
  obtain ⟨absent, bare, -⟩ := (settled_deleting_iff hf hdeleting).1 (h .epoch)
  exact ⟨bare, absent⟩

theorem AtRest.gone (h : rec.AtRest key t) (ht : t.Sound)
    (hstays : Registration.Stays rec.finalizer (some reg) (t.find? Registration key))
    (hdeleting : reg.metadata.isDeleting = true)
    (hbare : ∀ f ∈ reg.metadata.finalizers, f = rec.finalizer) :
    t.find? Registration key = none := by
  rcases hf : t.find? Registration key with _ | reg'
  · rfl
  · rw [hf] at hstays
    cases hstays with
    | kept kept =>
      have hdeleting' := kept.deleting_eq.trans hdeleting
      obtain ⟨f, hmem⟩ := List.exists_mem_of_ne_nil _
        ((ht.registration.proper hf).held hdeleting')
      have hmem : f ∈ reg'.metadata.finalizers := hmem
      have hne : f ≠ rec.finalizer := by
        rintro rfl
        have hmarked := (h.released hf hdeleting').1
        simp [Metadata.hasFinalizer, hmem] at hmarked
      exact absurd (hbare f ((kept.held_iff f hne).1 hmem)) hne

/-- After two calm visits or more of every registration that is stored, in any order, all that there
is to do has been done, and a further pass would change nothing and tell nothing. -/
theorem converged_of_visited_twice (hs : s.Reachable) {visits : List Visit}
    (hcalm : ∀ v ∈ visits, v.Calm)
    (htwice : ∀ key, (s.find? Registration key).isSome → 2 ≤ (visits.map Visit.key).count key) :
    rec.Converged s (rec.afterAll s visits) := by
  have hs := sound_of_reachable hs
  have ht := sound_afterAll rec visits hs
  have hstays := fun key => stays_afterAll rec key visits hs
  have hrest : ∀ key, rec.AtRest key (rec.afterAll s visits) :=
    fun key => atRest_afterAll hs hcalm (htwice key)
  have hsteady : ∀ key now, ((rec.reconcile key).exec (calm (rec.afterAll s visits) now)).2.store
      = rec.afterAll s visits :=
    fun key now => (steady_iff_settled ht).2 (hrest key now)
  refine ⟨hstays, fun key reg hf => (hrest key).bound hf, fun key reg hf => (hrest key).released hf,
    fun key reg hf hdeleting => ?_, fun key reg hf hdeleting => ?_,
    fun key now => ⟨hsteady key now, told_of_steady ht (hsteady key now)⟩⟩
  · obtain rfl := (hs.registration.proper hf).key_eq
    have hstart : rec.Struck reg s 0 := ⟨reg, hf, .refl _ _, hdeleting⟩
    have hstruck := counted_afterAll (Resource.key reg) (rec.Struck reg)
      (fun _ _ _ hs hne h => h.after_other hs hne)
      (fun _ _ _ hs hcalm hkey h => h.after_own hs hcalm hkey) visits hs hcalm hstart
    obtain ⟨n, hn⟩ := Nat.exists_eq_add_of_le' (htwice _ (by rw [hf]; rfl))
    rw [Nat.zero_add, hn] at hstruck
    exact hstruck.2
  · have hstays := hstays key
    rw [hf] at hstays
    exact (hrest key).gone ht hstays hdeleting

/-- A registration is created, and another one of the same hostname is bound and deleted. -/
def comingAndGoing : List (Request × Time) := [
  (.create .registration (Registration.named "team" "app"), .epoch),
  (.create .registration goner, .epoch),
  (.create .domain { Domain.named "app" with
    spec.registrations := [Resource.reference (stamped goner (Uid.nth 2) .epoch)] }, .epoch),
  (.delete .registration (Resource.key goner), .epoch)]
where
  goner := { (Registration.named "team" "old").withHostname "app" with
    metadata.finalizers := [({} : Reconciler).finalizer] }

/-- Four calm visits of the two in turn. -/
def rounds : List Visit :=
  [visit "app", visit "old", visit "app", visit "old"]
where
  visit (name : String) : Visit := ⟨⟨some "team", name⟩, .epoch, fun _ => none⟩

theorem slot_mem_of_isSome {R : Type} [Resource R] (h : (s.find? R key).isSome) :
    slot R key ∈ s.objects.entries.map Prod.fst := by
  rcases hvalue : s.value? R key with _ | value
  · simp [find?, hvalue] at h
  · exact List.mem_map_of_mem (mem_of_lookupEntry hvalue)

theorem converged_rounds :
    (empty.after comingAndGoing).Reachable ∧ (∀ v ∈ rounds, v.Calm) ∧
    (∀ key, ((empty.after comingAndGoing).find? Registration key).isSome →
      2 ≤ (rounds.map Visit.key).count key) ∧
    ({} : Reconciler).Converged (empty.after comingAndGoing)
      (({} : Reconciler).afterAll (empty.after comingAndGoing) rounds) := by
  have hreach : (empty.after comingAndGoing).Reachable := ⟨comingAndGoing, rfl⟩
  have hcalm : ∀ v ∈ rounds, v.Calm := by
    simp [rounds, rounds.visit, Visit.Calm]
  have htwice : ∀ key, ((empty.after comingAndGoing).find? Registration key).isSome →
      2 ≤ (rounds.map Visit.key).count key := by
    have hslots : ∀ slot ∈ (empty.after comingAndGoing).objects.entries.map Prod.fst,
        slot.kind = Resource.kind Registration → 2 ≤ (rounds.map Visit.key).count slot.key := by
      decide +kernel
    exact fun key h => hslots _ (slot_mem_of_isSome h) rfl
  exact ⟨hreach, hcalm, htwice, converged_of_visited_twice hreach hcalm htwice⟩

end Reconciler

end Registrar
