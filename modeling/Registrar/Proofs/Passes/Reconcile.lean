import Registrar.Proofs.Passes.Spares
import Registrar.Reconcile

/-!
# Reconciling among others

A pass over a registration works with the registration as it was read (`Known`): if that held the
finalizer it still does, with the same uid and spec, since nobody else takes the finalizer off; and
if it did not, no domain lists anything of it. So a binding is always that of a marked
registration, and the finalizer comes off only when nothing of the registration is listed any more.
-/

namespace Registrar

open Resource Parts Store

namespace Store

variable {marker : String} {reg : Registration} {m n : Moment} {s t : Store}

/-- What a pass knows of a registration that it has read. -/
structure Known (marker : String) (reg : Registration) (s : Store) : Prop where
  marked : reg.metadata.hasFinalizer marker →
    s.Marked marker (Resource.key reg) reg.metadata.uid reg.spec
  bare : reg.metadata.hasFinalizer marker = false →
    ∀ domainKey, s.listedOf (Resource.key reg) domainKey = []

namespace Known

theorem of_find? (hs : s.Sound) (hd : NoDangling marker s) {key : Key}
    (hf : s.find? Registration key = some reg) : Known marker reg s where
  marked h := by
    rw [(hs.registration.proper hf).key_eq]
    exact ⟨reg, hf, h, rfl, rfl⟩
  bare h domainKey := by
    refine List.eq_nil_iff_forall_not_mem.2 fun r hr => ?_
    obtain ⟨hmem, hkey⟩ := mem_listedOf.1 hr
    obtain ⟨reg', hf', -, -, hmarked⟩ := hd domainKey r hmem
    rw [hkey, (hs.registration.proper hf).key_eq, hf] at hf'
    obtain rfl := Option.some.inj hf'
    simp [h] at hmarked

theorem spares (h : Known marker reg s) (hs : s.Spares marker (Resource.key reg) t) :
    Known marker reg t where
  marked hm := hs.marked _ _ (h.marked hm)
  bare hb domainKey := (hs.listed domainKey).trans (h.bare hb domainKey)

theorem relisted {domainKey : Key} {list : List Reference} (h : Known marker reg s)
    (hr : s.Relisted domainKey list t)
    (hlist : reg.metadata.hasFinalizer marker = false →
      ∀ r ∈ list, r ∈ s.listed domainKey) : Known marker reg t where
  marked hm := by
    obtain ⟨found, hf, hfound⟩ := h.marked hm
    exact ⟨found, (hr.registration_eq _).trans hf, hfound⟩
  bare hb domainKey' := by
    by_cases hkey : domainKey' = domainKey
    · refine List.eq_nil_iff_forall_not_mem.2 fun r hmem => ?_
      obtain ⟨hmem, hrkey⟩ := mem_listedOf.1 hmem
      rw [hkey, hr.listed_eq] at hmem
      have := mem_listedOf.2 ⟨hlist hb r hmem, hrkey⟩
      simp [h.bare hb] at this
    · rw [listedOf, hr.listed_other hkey, ← listedOf, h.bare hb]

end Known

/-- A list leaves nothing dangling whose new references are those of marked registrations. -/
theorem NoDangling.relisted {domainKey : Key} {list : List Reference} (h : NoDangling marker s)
    (hr : s.Relisted domainKey list t)
    (hlist : ∀ r ∈ list, r ∈ s.listed domainKey ∨
      ∃ reg, s.find? Registration r.key = some reg ∧ reg.metadata.uid = r.uid ∧
        Binding.domainKey reg = domainKey ∧ reg.metadata.hasFinalizer marker) :
    NoDangling marker t := by
  intro domainKey' r hmem
  rw [hr.registration_eq]
  by_cases hkey : domainKey' = domainKey
  · rw [hkey, hr.listed_eq] at hmem
    rw [hkey]
    exact (hlist r hmem).elim (h domainKey r) id
  · rw [hr.listed_other hkey] at hmem
    exact h domainKey' r hmem

/-- Nothing of a registration is listed any more once its own domain does not list it. -/
theorem listedOf_eq_nil (hs : s.Sound) (hd : NoDangling marker s) (h : Known marker reg s)
    (hreleased : References.contains (s.listed (Binding.domainKey reg)) (Resource.reference reg)
      = false) (domainKey : Key) : s.listedOf (Resource.key reg) domainKey = [] := by
  rcases hmarked : reg.metadata.hasFinalizer marker with _ | _
  · exact h.bare hmarked domainKey
  · refine List.eq_nil_iff_forall_not_mem.2 fun r hr => ?_
    obtain ⟨hmem, hkey⟩ := mem_listedOf.1 hr
    obtain ⟨found, hf, huid, hhost, -⟩ := hd domainKey r hmem
    obtain ⟨found', hf', -, huid', hspec⟩ := h.marked hmarked
    rw [hkey, hf'] at hf
    obtain rfl := Option.some.inj hf
    have hhost' : Binding.domainKey reg = domainKey := by
      rw [← hhost]
      exact domainKey_congr (hs.registration.proper hf').key_eq.symm hspec.symm
    rw [hhost'] at hreleased
    have hsame : r.sameObject (Resource.reference reg) :=
      Reference.sameObject_iff.2 ⟨hkey, huid.symm.trans huid'⟩
    simp only [References.contains, List.any_eq_false] at hreleased
    exact hreleased r hmem hsame

end Store

theorem Metadata.hasFinalizer_addFinalizer (m : Metadata) (marker : String) :
    (m.addFinalizer marker).hasFinalizer marker := by
  rw [addFinalizer]
  split
  · assumption
  · simp [hasFinalizer]

theorem Verifier.metadata_verify {v : Verifier} {d : Domain} {reg told : Registration}
    {verified : Bool} (h : v.verify d reg = .ok (verified, told)) :
    told.metadata = reg.metadata := by
  rw [verify] at h
  split at h
  · obtain ⟨-, rfl⟩ := Prod.mk.inj (Except.ok.inj h)
    rfl
  · obtain ⟨name, -, h⟩ := bind_eq_ok_iff.1 h
    obtain ⟨-, rfl⟩ := Prod.mk.inj (Except.ok.inj h)
    rfl

/-- A call fails honestly when it does not answer that a stored domain cannot be found. -/
def FailsHonestly {β : Type} (c : Call β) (e : StoreError) (s : Store) : Prop :=
  c.method = .get → c.kind = Resource.kind Domain → e.isNotFound → s.find? Domain c.key = none

namespace Reconciler

variable (rec : Reconciler) (key : Key)

/-- A pass over a registration counts on the others to spare it, and spares all others. -/
def terms : Terms where
  inv s := s.Sound ∧ NoDangling rec.finalizer s
  others m n := m.Follows n ∧ m.store.Spares rec.finalizer key n.store
  own m n := m.Follows n ∧ m.store.ChangesOne n.store ∧
    ∀ key', key' ≠ key → m.store.Spares rec.finalizer key' n.store
  mayFail := FailsHonestly
  sound _ h := h.1
  follows _ _ h := h.1
  others_refl m := ⟨Moment.Follows.refl m, Spares.refl _ _ _⟩
  others_trans h h' := ⟨h.1.trans h'.1, h.2.trans h'.2⟩
  others_idle m := ⟨Moment.Follows.idle m, Spares.refl _ _ _⟩
  own_idle m := ⟨Moment.Follows.idle m, .inl fun _ => rfl, fun _ _ => Spares.refl _ _ _⟩

variable {rec key} {reg : Registration} {m n : Moment}

/-- A call about registrations is within the terms when it spares all others, and its own too unless
nothing of that is listed. -/
theorem within {t : Store} (hinv : (rec.terms key).inv m.store) (hw : m.store.Wrote Registration t)
    (hothers : ∀ key', key' ≠ key → m.store.Spares rec.finalizer key' t)
    (hown : (∀ domainKey, m.store.listedOf key domainKey = []) ∨
      m.store.Spares rec.finalizer key t) :
    (rec.terms key).inv t ∧ (rec.terms key).own m (m.next t) := by
  have ht : t.Sound := Sound.wrote (k := .registration) hinv.1 hw
  refine ⟨⟨ht, hinv.2.of_spares hinv.1 ht fun key' => ?_⟩, ?_, .inr (listed_of_wrote hw), hothers⟩
  · by_cases hkey : key' = key
    · subst hkey
      refine hown.imp_left fun hnone domainKey => ?_
      rw [listedOf_congr (listed_of_wrote hw), hnone]
    · exact .inr (hothers key' hkey)
  · have hdomain : ∀ key, t.find? Domain key = m.store.find? Domain key :=
      hw.find?_other (by decide)
    refine .of_fate (fun key => ⟨0, 0, ?_⟩) fun key h => by rwa [hdomain]
    rw [hdomain]
    exact .same _

theorem stable (hn : (rec.terms (Resource.key reg)).others m n)
    (h : Known rec.finalizer reg m.store) :
    Known rec.finalizer reg n.store :=
  h.spares hn.2

theorem missing : ∀ e s, (rec.terms key).mayFail (.get Domain (Binding.domainKey reg)) e s →
    e.isNotFound → s.find? Domain (Binding.domainKey reg) = none :=
  fun _ _ h he => h rfl rfl he

theorem key_reference (reg : Registration) : (Resource.reference reg).key = Resource.key reg :=
  rfl

theorem allows_register (hmarked : reg.metadata.hasFinalizer rec.finalizer) :
    (rec.terms (Resource.key reg)).Allows (Binding.domainKey reg)
      (References.append · (Resource.reference reg)) fun m => Known rec.finalizer reg m.store where
  stable _ _ h hn := stable hn h
  write m t h hinv hr _ := by
    have hbare : reg.metadata.hasFinalizer rec.finalizer ≠ false := by simp [hmarked]
    refine ⟨⟨Sound.wrote (k := .domain) hinv.1 hr.wrote, hinv.2.relisted hr fun r hmem => ?_⟩,
      ⟨hr.follows, .inl hr.registration_eq,
        fun key' hkey => hr.spares (filter_append _ (Ne.symm hkey))⟩,
      h.relisted hr fun hb => absurd hb hbare⟩
    rw [References.append] at hmem
    split at hmem
    · exact .inl hmem
    · rcases List.mem_append.1 hmem with hmem | hmem
      · exact .inl hmem
      · obtain rfl := List.mem_singleton.1 hmem
        obtain ⟨found, hf, hfound, huid, hspec⟩ := h.marked hmarked
        exact .inr ⟨found, hf, huid,
          domainKey_congr (hinv.1.registration.proper hf).key_eq hspec, hfound⟩
  missing := missing

theorem allows_unregister (reg : Registration) :
    (rec.terms (Resource.key reg)).Allows (Binding.domainKey reg)
      (References.remove · (Resource.reference reg)) fun m => Known rec.finalizer reg m.store where
  stable _ _ h hn := stable hn h
  write m t h hinv hr _ := by
    have hsub : ∀ r ∈ References.remove (m.store.listed (Binding.domainKey reg))
        (Resource.reference reg), r ∈ m.store.listed (Binding.domainKey reg) :=
      fun r hmem => (List.mem_filter.1 hmem).1
    exact ⟨⟨Sound.wrote (k := .domain) hinv.1 hr.wrote,
      hinv.2.relisted hr fun r hmem => .inl (hsub r hmem)⟩,
      ⟨hr.follows, .inl hr.registration_eq,
        fun key' hkey => hr.spares (filter_remove _ (Ne.symm hkey))⟩,
      h.relisted hr fun _ => hsub⟩
  missing := missing

theorem meets_report {P : Moment → Prop}
    (stable : ∀ m n, P m → (rec.terms key).others m n → P n) (hkey : Resource.key reg = key)
    (condition : Condition) (previous : List Condition) (hm : P m) :
    (report reg condition previous).Meets (rec.terms key) (fun answer n => P n ∧
      ∀ stored, answer = .ok stored → Resource.key stored = key) m := by
  refine Pass.meets_bind (p := Pass.now) fun n hn now => ?_
  refine Pass.meets_require fun n' hn' hinv _ => ?_
  have hP := stable _ _ (stable _ _ hm hn) hn'
  refine ⟨fun later answer t ht => ?_, fun e _ =>
    ⟨stable _ _ hP ((rec.terms key).others_idle n'), by simp⟩⟩
  obtain ⟨rfl, rfl⟩ := Prod.mk.inj ht
  have hs : ∀ key', n'.store.Spares rec.finalizer key' _ := spares_updateStatus hinv.1
    { reg with status.conditions := Condition.merge [condition] previous now }
  have hw := wrote_updateStatus hinv.1.registration
    { reg with status.conditions := Condition.merge [condition] previous now }
  obtain ⟨hinv', hown⟩ := within hinv hw (fun key' _ => hs key') (.inr (hs key))
  refine ⟨hinv', hown, stable _ _ hP ⟨hown.1, hs key⟩, fun stored hstored => ?_⟩
  rcases ha : (n'.store.updateStatus
    { reg with status.conditions := Condition.merge [condition] previous now }).answer with e | o
  · simp [ha, Except.mapError] at hstored
  · obtain rfl : o = stored := by simpa [ha, Except.mapError] using hstored
    rw [(hinv'.1.registration.proper (find?_of_updateStatus hinv.1.registration ha)).key_eq, ← hkey]
    rfl

/-- What a pass tells of a live registration when this is what the read of its domain has answered.
-/
def verdict (rec : Reconciler) (reg : Registration) :
    Except StoreError Domain → Condition × Registration
  | .error e =>
    if e.isNotFound then ({ aspect := .verified, status := .isFalse }, reg)
    else (unknown .verified (.ofStore e none), reg)
  | .ok domain =>
    match rec.verifier.verify domain reg with
    | .ok (verified, recorded) => ({ aspect := .verified, status := .ofBool verified }, recorded)
    | .error e => (unknown .verified (.ofHostname e), reg)

theorem metadata_verdict (rec : Reconciler) (answer : Except StoreError Domain) :
    (rec.verdict reg answer).2.metadata = reg.metadata := by
  unfold verdict
  split
  · split <;> rfl
  · split
    · rename_i h
      exact Verifier.metadata_verify h
    · rfl

theorem verified_eq (rec : Reconciler) (reg : Registration) : rec.verified reg =
    (do return rec.verdict reg (← Pass.ask (.get Domain (Binding.domainKey reg)))) := by
  rw [verified]
  refine bind_congr fun answer => ?_
  rcases answer with e | domain
  · dsimp only [verdict]
    split <;> rfl
  · dsimp only [verdict]
    rcases rec.verifier.verify domain reg with e | ⟨verified, recorded⟩ <;> rfl

theorem meets_verified (h : Known rec.finalizer reg m.store) :
    (rec.verified reg).Meets (rec.terms (Resource.key reg)) (fun answer n =>
      Known rec.finalizer reg n.store ∧
      ∀ condition told, answer = .ok (condition, told) → Resource.key told = Resource.key reg)
      m := by
  rw [verified_eq]
  refine Pass.meets_bind (Pass.meets_get (fun s hs => hs.1.domain) fun n hn hinv _ => ?_)
  have hverdict : ∀ answer, Pass.Meets (rec.terms (Resource.key reg)) (fun answer n =>
      Known rec.finalizer reg n.store ∧
      ∀ condition told, answer = .ok (condition, told) → Resource.key told = Resource.key reg)
      (pure (rec.verdict reg answer)) n.idle := by
    refine fun answer => ⟨stable (n := n) hn h, fun condition told htold => ?_⟩
    have htold : (rec.verdict reg answer).2 = told := congrArg Prod.snd (Except.ok.inj htold)
    rw [← htold]
    exact congrArg Metadata.key (metadata_verdict rec answer)
  exact ⟨fun d _ => hverdict _, fun _ => hverdict _, fun e _ => hverdict _⟩

theorem meets_ensure (h : Known rec.finalizer reg m.store) :
    (Finalizer.ensure reg rec.finalizer).Meets (rec.terms (Resource.key reg)) (fun answer n =>
      ∀ marked, answer = .ok (marked, false) →
        marked = reg ∧ reg.metadata.hasFinalizer rec.finalizer ∧ Known rec.finalizer reg n.store)
      m := by
  rw [Finalizer.ensure]
  split
  · rename_i hmarked
    intro marked hm
    obtain ⟨rfl, -⟩ := Prod.mk.inj (Except.ok.inj hm)
    exact ⟨rfl, hmarked, h⟩
  · intro n hn hinv _
    refine ⟨fun now => ?_, fun e _ marked hm => absurd hm (by simp [Except.map])⟩
    have hmarked :
        (withMetadata reg ((metadata reg).addFinalizer rec.finalizer)).metadata.hasFinalizer
          rec.finalizer :=
      Metadata.hasFinalizer_addFinalizer reg.metadata rec.finalizer
    have hs := spares_patch hinv.1 reg hmarked
    obtain ⟨hinv', hown⟩ := within hinv (wrote_patch hinv.1.registration reg _)
      (fun key' _ => hs key') (.inr (hs _))
    refine ⟨hinv', hown, fun marked hm => ?_⟩
    generalize (n.store.perform now _).1 = answer at hm
    rcases answer with e | stored <;> simp [Except.map] at hm

theorem meets_release {P : Moment → Prop} (hkey : Resource.key reg = key)
    (stable : ∀ m n, P m → (rec.terms key).others m n → P n)
    (hnone : ∀ m, P m → (rec.terms key).inv m.store →
      ∀ domainKey, m.store.listedOf key domainKey = [])
    {post : Except StoreError Bool → Moment → Prop} (hpost : ∀ answer n, post answer n) (hm : P m) :
    (Finalizer.release reg rec.finalizer).Meets (rec.terms key) post m := by
  rw [Finalizer.release]
  split
  · exact hpost _ _
  · intro n hn hinv _
    refine ⟨fun now => ?_, fun e _ => hpost _ _⟩
    obtain ⟨hinv', hown⟩ := within hinv (wrote_patch hinv.1.registration reg _)
      (fun key' hne => spares_patch_of_ne hinv.1 _ (hkey ▸ hne))
      (.inl (hnone n (stable _ _ hm hn) hinv))
    exact ⟨hinv', hown, hpost _ _⟩

/-- What is known of a registration that its domain does not list. -/
def Released (rec : Reconciler) (reg : Registration) (m : Moment) : Prop :=
  Known rec.finalizer reg m.store ∧
  References.contains (m.store.listed (Binding.domainKey reg)) (Resource.reference reg) = false

theorem Released.stable (h : Released rec reg m) (hn : (rec.terms (Resource.key reg)).others m n) :
    Released rec reg n := by
  refine ⟨Reconciler.stable hn h.1, ?_⟩
  rw [← contains_listedOf, key_reference, hn.2.listed, ← key_reference, contains_listedOf]
  exact h.2

theorem meets_accepted (h : Known rec.finalizer reg m.store) :
    (rec.accepted reg).Meets (rec.terms (Resource.key reg)) (fun answer n =>
      Known rec.finalizer reg n.store ∧
      ∀ condition, answer = .ok (condition, true) → Released rec reg n) m := by
  refine Pass.meets_bind (Pass.meets_lift (Program.Meets.mono ?_
    (Binding.meets_unregister (allows_unregister reg) h)))
  rintro (e | bound) n ⟨hknown, hreleased⟩
  · exact ⟨hknown, fun condition hc => absurd hc (by simp)⟩
  · exact ⟨hknown, fun condition hc => ⟨hknown, (hreleased bound rfl).2⟩⟩

theorem meets_reconcileDeleting (h : Known rec.finalizer reg m.store) :
    (rec.reconcileDeleting reg).Meets (rec.terms (Resource.key reg)) (fun _ _ => True) m := by
  refine Pass.meets_bind (Program.Meets.mono ?_ (meets_accepted h))
  rintro (e | ⟨condition, removable⟩) n ⟨hknown, hreleased⟩
  · trivial
  cases removable with
  | false =>
    refine Pass.meets_bind (Program.Meets.mono ?_ (meets_report (P := fun _ => True)
      (fun _ _ _ _ => trivial) rfl condition reg.status.conditions trivial))
    rintro (e | stored) n' -
    · trivial
    · trivial
  | true =>
    refine Pass.meets_bind (Program.Meets.mono ?_ (meets_report (P := Released rec reg)
      (fun _ _ h hn => h.stable hn) rfl condition reg.status.conditions (hreleased condition rfl)))
    rintro (e | stored) n' ⟨hP, hkey⟩
    · trivial
    · refine Pass.meets_bind (Pass.meets_lift (meets_release (hkey stored rfl)
        (fun _ _ h hn => h.stable hn) (fun n hn hinv => ?_) ?_ hP))
      · exact listedOf_eq_nil hinv.1 hinv.2 hn.1 hn.2
      · rintro (e | removed) n''
        · trivial
        · trivial

theorem meets_reconcileLive (h : Known rec.finalizer reg m.store) :
    (rec.reconcileLive reg).Meets (rec.terms (Resource.key reg)) (fun _ _ => True) m := by
  refine Pass.meets_bind (Pass.meets_lift (Program.Meets.mono ?_ (meets_ensure h)))
  rintro (e | ⟨marked, _ | _⟩) n hn
  · trivial
  · obtain ⟨rfl, hmarked, hknown⟩ := hn marked rfl
    refine Pass.meets_bind (Program.Meets.mono ?_
      (Binding.meets_register (allows_register hmarked) hknown))
    rintro (e | bound) n ⟨hknown, -⟩
    · trivial
    refine Pass.meets_bind (Program.Meets.mono ?_ (meets_verified hknown))
    rintro (e | ⟨condition, told⟩) n ⟨-, htold⟩
    · trivial
    refine Pass.meets_bind (Program.Meets.mono ?_ (meets_report (P := fun _ => True)
      (fun _ _ _ _ => trivial) (htold condition told rfl) condition marked.status.conditions
      trivial))
    rintro (e | stored) n -
    · trivial
    · trivial
  · trivial

/-- A pass meets its terms from any moment on. -/
theorem meets_reconcile (rec : Reconciler) (key : Key) (m : Moment) :
    (rec.reconcile key).Meets (rec.terms key) (fun _ _ => True) m := by
  refine Pass.meets_bind (Pass.meets_get (fun s hs => hs.1.registration) fun n hn hinv _ => ?_)
  refine ⟨fun reg hf => ?_, fun _ => trivial, fun e _ => ?_⟩
  · have hknown : Known rec.finalizer reg n.idle.store := Known.of_find? hinv.1 hinv.2 hf
    obtain rfl := (hinv.1.registration.proper hf).key_eq
    change Pass.Meets _ _ (if reg.metadata.isDeleting then _ else _) n.idle
    split
    · exact meets_reconcileDeleting hknown
    · exact meets_reconcileLive hknown
  · change Pass.Meets _ _ (if e.isNotFound then _ else _) n.idle
    split <;> trivial

end Reconciler

end Registrar
