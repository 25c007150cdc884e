import Registrar.Proofs.Passes.Reconcile

/-!
# What a pass writes

A pass reads its registration first. What it asks of the store after that follows from what it has
read: it makes requests about domains, tells the registration of its key that it is verified only
when it has read so, and changes that registration otherwise only when it has not read a live one
that holds the finalizer (`keepsTo_reconcile`).
-/

namespace Registrar

open Resource Parts Store

/-- A call that one of some requests makes. -/
inductive Call.Makes (ok : Request → Prop) : {β : Type} → Call β → Prop
  | of (r : Request) (h : ok r) : Makes ok r.call

/-- A program makes no requests but those allowed and ends in a result that is as expected, whatever
sound stores answer and whichever calls fail. -/
def Program.KeepsTo {α : Type} (ok : Request → Prop) (post : α → Prop) : Program α → Prop
  | .done a => post a
  | .call c next => c.Makes ok ∧
      (∀ (s : Store) now, s.Sound → (next (s.perform now c).1).KeepsTo ok post) ∧
      ∀ e, (next (.error e)).KeepsTo ok post
  | .clock next => ∀ now, (next now).KeepsTo ok post

variable {α β : Type} {ok : Request → Prop}

theorem Program.keepsTo_bind {mid : α → Prop} {post : β → Prop} {f : α → Program β}
    (hf : ∀ a, mid a → (f a).KeepsTo ok post) :
    ∀ {p : Program α}, p.KeepsTo ok mid → (p >>= f).KeepsTo ok post
  | .done a, h => hf a h
  | .call _ _, ⟨hc, hanswers, hfails⟩ =>
    ⟨hc, fun s now hs => keepsTo_bind hf (hanswers s now hs), fun e => keepsTo_bind hf (hfails e)⟩
  | .clock _, h => fun now => keepsTo_bind hf (h now)

namespace Pass

/-- A pass makes no requests but those allowed, and when it ends without an error its result is as
expected. -/
def KeepsTo (ok : Request → Prop) (post : α → Prop) (p : Pass α) : Prop :=
  p.run.KeepsTo ok fun answer => ∀ a, answer = .ok a → post a

variable {mid : α → Prop} {post : β → Prop}

theorem keepsTo_pure {b : β} (h : post b) : KeepsTo ok post (pure b) := by
  rintro a ⟨⟩
  exact h

theorem keepsTo_throw (e : PassError) : KeepsTo ok post (throw e) := by
  rintro a ⟨⟩

theorem keepsTo_bind {p : Pass α} {f : α → Pass β} (hp : p.KeepsTo ok mid)
    (hf : ∀ a, mid a → (f a).KeepsTo ok post) : (p >>= f).KeepsTo ok post := by
  refine Program.keepsTo_bind (fun answer h => ?_) hp
  rcases answer with e | a
  · exact keepsTo_throw e
  · exact hf a (h a rfl)

theorem keepsTo_lift {p : Program β} (h : p.KeepsTo ok post) :
    KeepsTo ok post (ExceptT.lift p) :=
  Program.keepsTo_bind (f := fun b => .done (Except.ok b)) (fun _ hb => keepsTo_pure hb) h

theorem keepsTo_ask {c : Call β} {post : Except StoreError β → Prop} (hc : c.Makes ok)
    (hanswers : ∀ (s : Store) now, s.Sound → post (s.perform now c).1)
    (hfails : ∀ e, post (.error e)) : KeepsTo ok post (ask c) :=
  keepsTo_lift ⟨hc, hanswers, hfails⟩

theorem keepsTo_require {c : Call β} (hc : c.Makes ok)
    (hanswers : ∀ (s : Store) now b, s.Sound → (s.perform now c).1 = .ok b → post b)
    (context : String) : KeepsTo ok post (require c context) := by
  have hask : KeepsTo ok (fun answer => ∀ b, answer = .ok b → post b) (ask c) :=
    keepsTo_ask hc (fun s now hs b => hanswers s now b hs) (by simp)
  refine keepsTo_bind hask fun answer h => ?_
  rcases answer with e | b
  · exact keepsTo_throw _
  · exact keepsTo_pure (h b rfl)

theorem keepsTo_now : KeepsTo ok (fun _ => True) now :=
  keepsTo_lift fun _ => trivial

theorem keepsTo_attempt {p : Pass α} (h : p.KeepsTo ok mid) :
    KeepsTo ok (fun answer => ∀ a, answer = .ok a → mid a) (attempt p) :=
  keepsTo_lift h

end Pass

open Pass

namespace Binding

section Domains

variable (hok : ∀ r : Request, r.kind = .domain → ok r)
include hok

theorem keepsTo_about_domains {c : Call β} (hc : c.Makes fun r => r.kind = .domain) :
    KeepsTo ok (fun _ => True) (ask c) := by
  cases hc with
  | of r h => exact keepsTo_ask (.of r (hok r h)) (fun _ _ _ => trivial) fun _ => trivial

theorem keepsTo_tryWrite (key : Key) (domain : Domain) (registrations : List Reference) :
    (tryWrite key domain registrations).KeepsTo ok fun _ => True := by
  refine keepsTo_bind (keepsTo_about_domains hok (.of (.patch .domain domain _) rfl))
    fun answer _ => ?_
  rcases answer with e | stored
  · dsimp only
    split
    · exact keepsTo_pure trivial
    · exact keepsTo_throw _
  · exact keepsTo_pure trivial

theorem keepsTo_tryRegister (key : Key) (reference : Reference) :
    (tryRegister key reference).KeepsTo ok fun _ => True := by
  refine keepsTo_bind (keepsTo_about_domains hok (.of (.get .domain key) rfl)) fun answer _ => ?_
  rcases answer with e | domain <;> dsimp only <;> split
  · refine keepsTo_bind (?_ : KeepsTo ok (fun _ => True) _) fun _ _ => keepsTo_pure trivial
    exact keepsTo_require (.of (.create .domain _) (hok _ rfl)) (fun _ _ _ _ _ => trivial) _
  · exact keepsTo_throw _
  · exact keepsTo_pure trivial
  · exact keepsTo_bind (keepsTo_tryWrite hok _ _ _) fun _ _ => keepsTo_pure trivial

theorem keepsTo_tryUnregister (key : Key) (reference : Reference) :
    (tryUnregister key reference).KeepsTo ok fun _ => True := by
  refine keepsTo_bind (keepsTo_about_domains hok (.of (.get .domain key) rfl)) fun answer _ => ?_
  rcases answer with e | domain <;> dsimp only <;> split
  · exact keepsTo_pure trivial
  · exact keepsTo_throw _
  · exact keepsTo_pure trivial
  · exact keepsTo_bind (keepsTo_tryWrite hok _ _ _) fun _ _ => keepsTo_pure trivial

end Domains

theorem keepsTo_retrying {key : Key} {attempts : Nat} {attempt : Pass (Option α)}
    (h : attempt.KeepsTo ok fun _ => True) :
    ∀ n, (retrying key attempts attempt n).KeepsTo ok fun _ => True
  | 0 => keepsTo_throw _
  | n + 1 => keepsTo_bind h fun answer _ => by
    rcases answer with _ | a
    · exact keepsTo_retrying h n
    · exact keepsTo_pure trivial

end Binding

/-- What a pass over a key asks when it has read a live registration with the finalizer, or has not:
about domains anything, and of the registration of its key it writes the status, verified if it has
read so, or else it patches that registration when it has read no such one. -/
inductive Request.Within (key : Key) (read? : Option Registration) : Request → Prop
  | domain {r : Request} (about : r.kind = .domain) : Within key read? r
  | status (o : Registration) (key_eq : Resource.key o = key)
      (grounded : Condition.holds o.status.conditions .verified = true → ∃ reg, read? = some reg ∧
        o.metadata.resourceVersion = reg.metadata.resourceVersion ∧
        Condition.holds reg.status.conditions .verified = true) :
      Within key read? (.updateStatus .registration o)
  | finalizers (base mutated : Registration) (key_eq : Resource.key base = key)
      (unread : read? = none) : Within key read? (.patch .registration base mutated)

namespace Reconciler

variable {rec : Reconciler} {reg : Registration} {key : Key} {read? : Option Registration}

theorem holds_merge (c : Condition) (previous : List Condition) (now : Time) :
    Condition.holds (Condition.merge [c] previous now) .verified = true ↔
      c.aspect = .verified ∧ c.status = .isTrue := by
  by_cases haspect : c.aspect = .verified <;>
    simp [Condition.holds, Condition.find?, Condition.merge, haspect]

/-- A pass finds a registration verified only when it was. -/
theorem holds_of_verdict (rec : Reconciler) (reg : Registration)
    {answer : Except StoreError Domain} (h : (rec.verdict reg answer).1.status = .isTrue) :
    Condition.holds reg.status.conditions .verified = true := by
  rcases answer with e | d
  · rw [verdict] at h
    split at h <;> simp [unknown] at h
  · rw [verdict] at h
    split at h
    · rename_i verified recorded hverify
      rw [Verifier.verify] at hverify
      split at hverify
      · obtain ⟨rfl, -⟩ := Prod.mk.inj (Except.ok.inj hverify)
        simp [Condition.Status.ofBool] at h
      · obtain ⟨name, -, hverify⟩ := bind_eq_ok_iff.1 hverify
        obtain ⟨rfl, -⟩ := Prod.mk.inj (Except.ok.inj hverify)
        simpa [Condition.Status.ofBool] using h
    · simp [unknown] at h

theorem keepsTo_report (hkey : Resource.key reg = key) {c : Condition}
    (hgrounded : c.aspect = .verified → c.status = .isTrue → ∃ reg', read? = some reg' ∧
      reg.metadata.resourceVersion = reg'.metadata.resourceVersion ∧
      Condition.holds reg'.status.conditions .verified = true) (previous : List Condition) :
    (report reg c previous).KeepsTo (Request.Within key read?)
      fun stored => Resource.key stored = key := by
  refine keepsTo_bind keepsTo_now fun now _ => ?_
  have hwithin : Request.Within key read? (.updateStatus .registration
      { reg with status.conditions := Condition.merge [c] previous now }) :=
    .status _ hkey fun hholds =>
      have htold := (holds_merge c previous now).1 hholds
      hgrounded htold.1 htold.2
  refine keepsTo_require (.of _ hwithin) (fun s now' stored hs ha => ?_) _
  have hf := find?_of_updateStatus (R := Registration) hs.registration ha
  exact ((Sound.wrote (k := .registration) hs
    (wrote_updateStatus hs.registration _)).registration.proper hf).key_eq.trans hkey

theorem keepsTo_release {marker : String} (hkey : Resource.key reg = key) :
    (Finalizer.release reg marker).KeepsTo (Request.Within key none) fun _ => True := by
  rw [Finalizer.release]
  split
  · trivial
  · exact ⟨.of _ (Request.Within.finalizers reg _ hkey rfl), fun _ _ _ => trivial, fun _ => trivial⟩

theorem keepsTo_reconcileDeleting (hkey : Resource.key reg = key) :
    (rec.reconcileDeleting reg).KeepsTo (Request.Within key none) fun _ => True := by
  have haccepted : (rec.accepted reg).KeepsTo (Request.Within key none)
      fun answer => answer.1.aspect = .accepted := by
    refine keepsTo_bind (keepsTo_attempt (Binding.keepsTo_retrying
      (Binding.keepsTo_tryUnregister (fun _ => .domain) _ _) _)) fun answer _ => ?_
    rcases answer with e | bound
    · exact keepsTo_pure rfl
    · exact keepsTo_pure rfl
  refine keepsTo_bind haccepted fun answer haspect => ?_
  obtain ⟨c, removable⟩ := answer
  refine keepsTo_bind (keepsTo_report hkey (fun h => ?_) _) fun stored hstored => ?_
  · rw [show c.aspect = .accepted from haspect] at h
    simp at h
  · split
    · refine keepsTo_bind (keepsTo_lift (keepsTo_release hstored)) fun answer _ => ?_
      rcases answer with e | _
      · exact keepsTo_throw _
      · exact keepsTo_pure trivial
    · exact keepsTo_pure trivial

/-- A live registration that holds the finalizer, nothing for any other. -/
def bound? (rec : Reconciler) (reg : Registration) : Option Registration :=
  if !reg.metadata.isDeleting && reg.metadata.hasFinalizer rec.finalizer then some reg else none

theorem keepsTo_ensure (rec : Reconciler) (hkey : Resource.key reg = key)
    (hlive : reg.metadata.isDeleting = false) :
    (Finalizer.ensure reg rec.finalizer).KeepsTo (Request.Within key (rec.bound? reg))
      fun answer => ∀ marked, answer = .ok (marked, false) →
        marked = reg ∧ rec.bound? reg = some reg := by
  rw [Finalizer.ensure]
  split
  · rename_i hmarked
    rintro marked ⟨⟩
    have hmarked : reg.metadata.hasFinalizer rec.finalizer = true := hmarked
    exact ⟨rfl, by simp [bound?, hlive, hmarked]⟩
  · rename_i hbare
    have hbare : ¬reg.metadata.hasFinalizer rec.finalizer = true := hbare
    have hunread : rec.bound? reg = none := by simp [bound?, hbare]
    refine ⟨.of _ (Request.Within.finalizers reg _ hkey hunread), fun s now _ marked h => ?_,
      fun e marked h => ?_⟩
    · rcases hanswer : (s.perform now _).1 with e | stored <;> rw [hanswer] at h <;>
        simp [Except.map] at h
    · simp [Except.map] at h

theorem keepsTo_reconcileLive (rec : Reconciler) (hkey : Resource.key reg = key)
    (hlive : reg.metadata.isDeleting = false) :
    (rec.reconcileLive reg).KeepsTo (Request.Within key (rec.bound? reg)) fun _ => True := by
  refine keepsTo_bind (keepsTo_lift (keepsTo_ensure rec hkey hlive)) fun answer hmarked => ?_
  rcases answer with e | ⟨marked, _ | _⟩
  · exact keepsTo_throw _
  · obtain ⟨rfl, hread⟩ := hmarked marked rfl
    refine keepsTo_bind (Binding.keepsTo_retrying
      (Binding.keepsTo_tryRegister (fun _ => .domain) _ _) _) fun _ _ => ?_
    have hverified : (rec.verified marked).KeepsTo (Request.Within key (rec.bound? marked))
        fun told => ∃ answer, told = rec.verdict marked answer := by
      rw [verified_eq]
      exact keepsTo_bind (Binding.keepsTo_about_domains (fun _ => .domain)
        (.of (.get .domain _) rfl)) fun answer _ => keepsTo_pure ⟨answer, rfl⟩
    refine keepsTo_bind hverified fun told htold => ?_
    obtain ⟨answer, rfl⟩ := htold
    have hmetadata : (rec.verdict marked answer).2.metadata = marked.metadata :=
      metadata_verdict rec answer
    refine keepsTo_bind (keepsTo_report ((congrArg Metadata.key hmetadata).trans hkey)
      (fun _ h => ⟨marked, hread, congrArg Metadata.resourceVersion hmetadata,
        holds_of_verdict rec marked h⟩) _) fun _ _ => keepsTo_pure trivial
  · exact keepsTo_pure trivial

/-- A pass reads the registration of its key, and keeps to what it has read. -/
theorem keepsTo_reconcile (rec : Reconciler) (key : Key) :
    ∃ next : Except StoreError Registration → Pass Outcome,
      (rec.reconcile key).run = .call (.get Registration key) (fun answer => (next answer).run) ∧
      (∀ e, (next (.error e)).KeepsTo (Request.Within key none) fun _ => True) ∧
      ∀ reg, Resource.key reg = key →
        (next (.ok reg)).KeepsTo (Request.Within key (rec.bound? reg)) fun _ => True := by
  refine ⟨_, rfl, fun e => ?_, fun reg hkey => ?_⟩
  · change Pass.KeepsTo _ _ (if e.isNotFound then pure Outcome.done else throw _)
    split
    · exact keepsTo_pure trivial
    · exact keepsTo_throw _
  · change Pass.KeepsTo _ _
      (if reg.metadata.isDeleting then rec.reconcileDeleting reg else rec.reconcileLive reg)
    rcases hdeleting : reg.metadata.isDeleting with _ | _
    · exact keepsTo_reconcileLive rec hkey hdeleting
    · rw [show rec.bound? reg = none by simp [bound?, hdeleting]]
      exact keepsTo_reconcileDeleting hkey

end Reconciler

end Registrar
