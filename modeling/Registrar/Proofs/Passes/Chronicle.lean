import Registrar.Proofs.Passes.Ownership

/-!
# Since when a status has held

Passes go over one registration one after another. Their calls may fail, the clock shows what it
likes, and others may change domains and mark the registration as deleting at any point. A pass
replaces all conditions by one, stamped from the condition that is stored at that moment, so the time
on a stored condition is what the clock showed to the first of the passes in a row that have told the
same type and status since (`since_first_of_block`).
-/

namespace Registrar

open Resource Store

/-- What a pass told of its registration, and what the clock showed it. -/
structure Report where
  told : List (Condition.Aspect × Condition.Status)
  reading : Option Time
  deriving DecidableEq

namespace Report

def telling (conditions : List Condition) : List (Condition.Aspect × Condition.Status) :=
  conditions.map fun c => (c.aspect, c.status)

/-- The latest reports in a row that tell the same, latest first. -/
def block (latest : Report) (earlier : List Report) : List Report :=
  latest :: earlier.takeWhile (·.told == latest.told)

/-- There is one condition, as told last, and it has held since the first report that told so. Before
the first report there is none. -/
def Date : List Report → List Condition → Prop
  | [], conditions => conditions = []
  | latest :: earlier, conditions => ∃ c first now, conditions = [c] ∧
    latest.told = [(c.aspect, c.status)] ∧ (block latest earlier).getLast? = some first ∧
    first.reading = some now ∧ c.since = some now

theorem block_of_told_eq {r latest : Report} (h : latest.told = r.told) (earlier : List Report) :
    block r (latest :: earlier) = r :: block latest earlier := by
  simp [block, h]

theorem block_of_told_ne {r latest : Report} (h : latest.told ≠ r.told) (earlier : List Report) :
    block r (latest :: earlier) = [r] := by
  simp [block, h]

/-- New conditions that are stamped from the stored ones go on with the block, or begin another. -/
theorem Date.merge {reports : List Report} {previous : List Condition}
    (h : Date reports previous) (c : Condition) (now : Time) :
    Date (⟨telling (Condition.merge [c] previous now), some now⟩ :: reports)
      (Condition.merge [c] previous now) := by
  rcases reports with _ | ⟨latest, earlier⟩
  · obtain rfl : previous = [] := h
    exact ⟨_, _, now, rfl, rfl, rfl, rfl, rfl⟩
  · obtain ⟨before, first, stamp, rfl, htold, hfirst, hreading, hsince⟩ := h
    by_cases hsame : before.aspect = c.aspect ∧ before.status = c.status
    · have hkept : Condition.since? [before] c = some stamp := by
        simp [Condition.since?, Condition.find?, hsame, hsince, Option.filter]
      refine ⟨_, first, stamp, rfl, rfl, ?_, hreading, by simp [hkept]⟩
      rw [block_of_told_eq (by simp [htold, telling, Condition.merge, hsame]), block,
        List.getLast?_cons_cons]
      exact hfirst
    · have hstamped : Condition.since? [before] c = none := by
        by_cases haspect : before.aspect = c.aspect <;>
          simp_all [Condition.since?, Condition.find?]
      refine ⟨_, ⟨telling (Condition.merge [c] [before] now), some now⟩, now, rfl, rfl, ?_, rfl,
        by simp [hstamped]⟩
      rw [block_of_told_ne (by simpa [htold, telling, Condition.merge] using hsame)]
      rfl

end Report

namespace Call

/-- What a write of the status of a registration tells. -/
def told? {β : Type} : Call β → Option (List (Condition.Aspect × Condition.Status))
  | @Call.updateStatus R _ object =>
    if Resource.kind R = Resource.kind Registration then
      (Resource.encode object).toOption.bind fun value =>
        (Registration.decode? value).map fun reg => Report.telling reg.status.conditions
    else none
  | _ => none

theorem told?_updateStatus_eq {R : Type} [Resource R] (object : R) : (updateStatus object).told? =
    if Resource.kind R = Resource.kind Registration then
      (Resource.encode object).toOption.bind fun value =>
        (Registration.decode? value).map fun reg => Report.telling reg.status.conditions
    else none :=
  rfl

theorem told?_updateStatus (reg : Registration) :
    (updateStatus reg).told? = some (Report.telling reg.status.conditions) := by
  rw [told?_updateStatus_eq, if_pos rfl]
  change (Registration.decode? reg.encode).map _ = _
  rw [Registration.decode?_encode, Option.map_some]

theorem told?_updateStatus_domain (d : Domain) : (updateStatus d).told? = none := by
  rw [told?_updateStatus_eq, if_neg (by decide)]

end Call

theorem Store.find?_create_of_ne {R : Type} [Resource R] [Parts R] {s : Store} {key : Key} {o : R}
    (now : Time) (hne : key ≠ Resource.key o) :
    (s.create now o).store.find? R key = s.find? R key := by
  obtain ⟨e, hc⟩ | ⟨new, rfl, -, -, hc⟩ := create_cases (s := s) now o <;> rw [hc]
  rw [find?_put, key_stamped, if_neg hne]
  rfl

namespace Request

variable {r : Request} {key : Key} {s : Store} {now : Time} {reg o o' : Registration}

/-- A request that does not make a registration of a key, or write to one. A deletion it may ask
for. -/
def Outside (key : Key) (r : Request) : Prop :=
  ∀ o : Registration, Resource.key o = key → r ≠ .create .registration o ∧
    r ≠ .updateStatus .registration o ∧ ∀ mutated : Registration, r ≠ .patch .registration o mutated

/-- A patch of a registration, which carries its status over. -/
def Patches (r : Request) : Prop :=
  ∃ base mutated : Registration, r = .patch .registration base mutated

/-- A status whose one condition is stamped from those of a registration that was read. -/
def Announces (key : Key) (reg : Registration) (now : Time) (r : Request) : Prop :=
  ∃ (o : Registration) (c : Condition), r = .updateStatus .registration o ∧
    Resource.key o = key ∧ o.metadata.resourceVersion = reg.metadata.resourceVersion ∧
    o.status.conditions = Condition.merge [c] reg.status.conditions now

/-- What a pass writes of its registration when the clock has shown it so much. -/
def Writes (key : Key) (reg : Registration) (reading : Option Time) (r : Request) : Prop :=
  r.Patches ∨ ∃ now, reading = some now ∧ r.Announces key reg now

theorem told?_of_domain (h : r.kind = .domain) : r.call.told? = none := by
  cases r with
  | updateStatus k o =>
    cases k with
    | registration => cases h
    | domain => exact Call.told?_updateStatus_domain o
  | _ => rfl

theorem told?_of_patches (h : r.Patches) : r.call.told? = none := by
  obtain ⟨base, mutated, rfl⟩ := h
  rfl

/-- Whatever is asked from outside, a registration stays, is marked as deleting, or goes. -/
theorem Outside.find? (h : r.Outside key) (hs : s.Sound)
    (hf : (r.serve now s).find? Registration key = some o') :
    ∃ o, s.find? Registration key = some o ∧
      (o' = o ∨ ¬Resource.isDeleting o ∧ o' = marked o now) := by
  have hstays : (r.serve now s).find? Registration key = s.find? Registration key →
      ∃ o, s.find? Registration key = some o ∧
        (o' = o ∨ ¬Resource.isDeleting o ∧ o' = marked o now) :=
    fun hsame => ⟨o', hsame ▸ hf, .inl rfl⟩
  rcases hkind : r.kind with _ | _
  · cases r with
    | get | list => exact hstays rfl
    | create k o =>
      obtain rfl : k = .registration := hkind
      exact hstays (find?_create_of_ne (R := Registration) (o := o) now fun hkey =>
        (h o hkey.symm).1 rfl)
    | patch k base mutated =>
      obtain rfl : k = .registration := hkind
      exact hstays (find?_patch_of_ne hs.registration _ fun hkey =>
        (h base hkey.symm).2.2 mutated rfl)
    | updateStatus k o =>
      obtain rfl : k = .registration := hkind
      exact hstays (find?_updateStatus_of_ne hs.registration fun hkey => (h o hkey.symm).2.1 rfl)
    | delete k key' =>
      obtain rfl : k = .registration := hkind
      change (s.delete Registration key' now).store.find? Registration key = _ at hf
      obtain ⟨e, hd⟩ | ⟨o, hfound, ⟨-, hd⟩ | ⟨-, hd⟩ | ⟨-, hlive, hd⟩⟩ :=
        delete_cases hs.registration key' now <;> rw [hd] at hf
      · exact ⟨o', hf, .inl rfl⟩
      · exact ⟨o', hf, .inl rfl⟩
      · rw [find?_drop] at hf
        split at hf
        · cases hf
        · exact ⟨o', hf, .inl rfl⟩
      · rw [find?_put, key_marked, (hs.registration.proper hfound).key_eq] at hf
        split at hf
        · rename_i hkey
          exact ⟨o, hkey ▸ hfound, .inr ⟨hlive, (Option.some.inj hf).symm⟩⟩
        · exact ⟨o', hf, .inl rfl⟩
  · exact hstays (find?_registration_of_domain hs now hkind key)

theorem Patches.find? (h : r.Patches) (hs : s.Sound)
    (hf : (r.serve now s).find? Registration key = some o') :
    ∃ o, s.find? Registration key = some o ∧ o.status = o'.status := by
  obtain ⟨base, mutated, rfl⟩ := h
  obtain ⟨o, hfound, -, hstatus⟩ := find?_of_patch hs.registration hf
  exact ⟨o, hfound, hstatus⟩

end Request

/-! ## Passes that announce -/

/-- A program asks about domains, then it may patch a registration or announce its status at the
time that the clock showed last, and after that it does no more than patch. -/
def Program.Announces {α : Type} (key : Key) (reg : Registration) :
    Option Time → Program α → Prop
  | _, .done _ => True
  | reading, .call c next =>
    (c.Makes (·.kind = .domain) ∧
      (∀ (s : Store) now, s.Sound → (next (s.perform now c).1).Announces key reg reading) ∧
      ∀ e, (next (.error e)).Announces key reg reading) ∨
    (c.Makes (Request.Writes key reg reading) ∧
      (∀ (s : Store) now, s.Sound →
        (next (s.perform now c).1).KeepsTo Request.Patches fun _ => True) ∧
      ∀ e, (next (.error e)).KeepsTo Request.Patches fun _ => True)
  | _, .clock next => ∀ now, (next now).Announces key reg (some now)

section Announcing

open Pass

variable {α β : Type} {key : Key} {reg : Registration} {reading : Option Time} {mid : α → Prop}

theorem Program.announces_bind {f : α → Program β}
    (hf : ∀ a reading, mid a → (f a).Announces key reg reading) :
    ∀ {p : Program α} {reading : Option Time}, p.KeepsTo (·.kind = .domain) mid →
      (p >>= f).Announces key reg reading
  | .done a, _, h => hf a _ h
  | .call _ _, _, ⟨hc, hanswers, hfails⟩ =>
    .inl ⟨hc, fun s now hs => announces_bind hf (hanswers s now hs),
      fun e => announces_bind hf (hfails e)⟩
  | .clock _, _, h => fun now => announces_bind hf (h now)

theorem Pass.announces_bind {p : Pass α} {f : α → Pass β} (hp : p.KeepsTo (·.kind = .domain) mid)
    (hf : ∀ a reading, mid a → (f a).run.Announces key reg reading) :
    (p >>= f).run.Announces key reg reading :=
  Program.announces_bind (fun answer _ h => by
    rcases answer with e | a
    · trivial
    · exact hf a _ (h a rfl)) hp

namespace Reconciler

variable {rec : Reconciler}

/-- A report is announced at the time that the clock shows, whatever it showed before. -/
theorem announces_report {told : Registration} (hmetadata : told.metadata = reg.metadata)
    (hkey : Resource.key reg = key) (c : Condition) {f : Registration → Pass β}
    (hf : ∀ stored, (f stored).run.KeepsTo Request.Patches fun _ => True) :
    (report told c reg.status.conditions >>= f).run.Announces key reg reading := by
  intro now
  have hwrites : Request.Writes key reg (some now) (.updateStatus .registration
      { told with status.conditions := Condition.merge [c] reg.status.conditions now }) :=
    .inr ⟨now, rfl, _, c, rfl, (congrArg Metadata.key hmetadata).trans hkey,
      congrArg Metadata.resourceVersion hmetadata, rfl⟩
  refine Or.inr ⟨.of _ hwrites, fun s now' _ => ?_, fun e => trivial⟩
  rcases (s.perform now' _).1 with e | stored
  · trivial
  · exact hf stored

theorem patches_release (stored : Registration) (marker : String) :
    (Finalizer.release stored marker).KeepsTo Request.Patches fun _ => True := by
  rw [Finalizer.release]
  split
  · trivial
  · exact ⟨.of (.patch .registration stored _) ⟨stored, _, rfl⟩, fun _ _ _ => trivial,
      fun _ => trivial⟩

theorem announces_reconcileDeleting (hkey : Resource.key reg = key) :
    (rec.reconcileDeleting reg).run.Announces key reg reading := by
  have haccepted : (rec.accepted reg).KeepsTo (·.kind = .domain) fun _ => True := by
    refine keepsTo_bind (keepsTo_attempt (Binding.keepsTo_retrying
      (Binding.keepsTo_tryUnregister (fun _ h => h) _ _) _)) fun answer _ => ?_
    rcases answer with e | bound
    · exact keepsTo_pure trivial
    · exact keepsTo_pure trivial
  refine Pass.announces_bind haccepted fun answer _ _ => ?_
  refine announces_report rfl hkey answer.1 fun stored => ?_
  split
  · refine Program.keepsTo_bind (fun answer _ => ?_)
      (keepsTo_lift (patches_release stored rec.finalizer))
    rcases answer with e | _ | _ <;> trivial
  · trivial

theorem announces_reconcileLive (hkey : Resource.key reg = key) :
    (rec.reconcileLive reg).run.Announces key reg reading := by
  rw [reconcileLive, Finalizer.ensure]
  split
  · change Program.Announces _ _ _ (do
      Binding.register reg rec.attempts
      let told ← rec.verified reg
      let _ ← report told.2 told.1 reg.status.conditions
      return Outcome.done : Pass Outcome).run
    have hregister : (Binding.register reg rec.attempts).KeepsTo (·.kind = .domain)
        fun _ => True :=
      Binding.keepsTo_retrying (Binding.keepsTo_tryRegister (fun _ h => h) _ _) _
    refine Pass.announces_bind hregister fun _ _ _ => ?_
    have hverified : (rec.verified reg).KeepsTo (·.kind = .domain)
        fun told => told.2.metadata = reg.metadata := by
      rw [verified_eq]
      exact keepsTo_bind (Binding.keepsTo_about_domains (fun _ h => h)
        (.of (.get .domain _) rfl)) fun answer _ => keepsTo_pure (metadata_verdict rec answer)
    exact Pass.announces_bind hverified fun told _ hmetadata =>
      announces_report hmetadata hkey told.1 fun _ => trivial
  · refine Or.inr ⟨.of (.patch .registration reg _) (.inl ⟨reg, _, rfl⟩), fun s now _ => ?_,
      fun e => trivial⟩
    rcases (s.perform now _).1 with e | stored <;> trivial

/-- A pass reads the registration of its key, and then announces no other status than one stamped
from what it has read. -/
theorem announces_reconcile (rec : Reconciler) (key : Key) :
    ∃ next : Except StoreError Registration → Program (Except PassError Outcome),
      (rec.reconcile key).run = .call (.get Registration key) next ∧
      (∀ e, (next (.error e)).KeepsTo Request.Patches fun _ => True) ∧
      ∀ reg reading, Resource.key reg = key → (next (.ok reg)).Announces key reg reading := by
  refine ⟨_, rfl, fun e => ?_, fun reg reading hkey => ?_⟩
  · change Program.KeepsTo _ _
      (if e.isNotFound then pure Outcome.done else throw _ : Pass Outcome).run
    split <;> trivial
  · change Program.Announces _ _ _
      (if reg.metadata.isDeleting then rec.reconcileDeleting reg else rec.reconcileLive reg).run
    split
    · exact announces_reconcileDeleting hkey
    · exact announces_reconcileLive hkey

end Reconciler

end Announcing

/-! ## Passes one after another -/

/-- The registration of a key is as it was read, or has been marked as deleting since. -/
def Store.Recent (key : Key) (reg : Registration) (s : Store) : Prop :=
  ∀ current, s.find? Registration key = some current → current = reg ∨
    Resource.isDeleting current ∧
      current.metadata.resourceVersion = reg.metadata.resourceVersion + 1

namespace Store.Recent

variable {key : Key} {reg : Registration} {s t : Store} {r : Request}

theorem of_eq (h : Recent key reg s)
    (hsame : t.find? Registration key = s.find? Registration key) : Recent key reg t :=
  fun current hf => h current (hsame.symm.trans hf)

theorem outside (h : Recent key reg s) (hs : s.Sound) (hr : r.Outside key) (now : Time) :
    Recent key reg (r.serve now s) := by
  intro current hf
  obtain ⟨o, hfound, rfl | ⟨hlive, rfl⟩⟩ := hr.find? hs hf
  · exact h current hfound
  · obtain rfl | ⟨hdeleting, -⟩ := h o hfound
    · exact .inr ⟨rfl, rfl⟩
    · exact absurd hdeleting hlive

/-- A status with the version that was read is taken in the place of the one that was read. -/
theorem eq_of_accepted (h : Recent key reg s) {o current : Registration}
    (hkey : Resource.key o = key)
    (hversion : o.metadata.resourceVersion = reg.metadata.resourceVersion)
    (hacc : s.Accepted o current) : current = reg := by
  obtain rfl | ⟨-, hraised⟩ := h current (hkey ▸ hacc.found)
  · rfl
  · have hsame : reg.metadata.resourceVersion = reg.metadata.resourceVersion + 1 :=
      hversion.symm.trans (hacc.version_eq.trans hraised)
    simp at hsame

end Store.Recent

/-- Passes that go over one registration, what the clock has shown the pass that goes on, and what
passes have told, the latest first. -/
structure Chronicle : Type 1 where
  site : Site Unit (Except PassError Outcome)
  reading : Option Time
  reports : List Report

namespace Chronicle

/-- The reports after a call is answered: one more if it told a status and was taken. -/
def noted {β : Type} (reports : List Report) (reading : Option Time) (c : Call β)
    (answer : Except StoreError β) : List Report :=
  match answer, c.told? with
  | .ok _, some told => ⟨told, reading⟩ :: reports
  | _, _ => reports

/-- Nothing goes on and nothing has been told. -/
def fresh (s : Store) : Chronicle :=
  ⟨Site.quiet s, none, []⟩

section Steps

variable (rec : Reconciler) (key : Key)

def step (h : Chronicle) (move : Move Unit) : Chronicle where
  site := h.site.step (fun _ => (rec.reconcile key).run) move
  reading := match move, h.site.passes () with
    | .begin _, none => none
    | .perform _ now, some (.clock _) => some now
    | _, _ => h.reading
  reports := match move, h.site.passes () with
    | .perform _ now, some (.call c _) =>
      noted h.reports h.reading c (h.site.store.perform now c).1
    | _, _ => h.reports

def run (h : Chronicle) : List (Move Unit) → Chronicle
  | [] => h
  | move :: moves => (h.step rec key move).run moves

/-- A pass is yet to read its registration, or announces what follows from what it has read, or does
not announce anything any more. -/
def Informed (s : Store) (reading : Option Time) (p : Program (Except PassError Outcome)) : Prop :=
  p = (rec.reconcile key).run ∨ p.KeepsTo Request.Patches (fun _ => True) ∨
    ∃ reg, s.Recent key reg ∧ p.Announces key reg reading

/-- What holds after every move. -/
structure Kept (h : Chronicle) : Prop where
  sound : h.site.store.Sound
  date : ∀ reg, h.site.store.find? Registration key = some reg →
    Report.Date h.reports reg.status.conditions
  informed : ∀ p, h.site.passes () = some p → Informed rec key h.site.store h.reading p

end Steps

section Noted

variable {β : Type} {c : Call β} {reports : List Report} {reading : Option Time}

theorem noted_of_told?_eq_none (h : c.told? = none) (answer : Except StoreError β) :
    noted reports reading c answer = reports := by
  rcases answer with e | b <;> simp [noted, h]

theorem noted_ok {told : List (Condition.Aspect × Condition.Status)} (h : c.told? = some told)
    (b : β) : noted reports reading c (.ok b) = ⟨told, reading⟩ :: reports := by
  simp [noted, h]

end Noted

section Kept

variable {rec : Reconciler} {key : Key} {reg : Registration} {s : Store} {reading : Option Time}
  {reports : List Report} {r : Request}

/-- A status that a pass announces is taken only in place of the one it is stamped from. -/
theorem date_of_announces (hs : s.Sound) (hrecent : s.Recent key reg) {now : Time}
    (hr : r.Announces key reg now) (now' : Time)
    (hdate : ∀ reg, s.find? Registration key = some reg →
      Report.Date reports reg.status.conditions) {reg' : Registration}
    (hf : (r.serve now' s).find? Registration key = some reg') :
    Report.Date (noted reports (some now) r.call (s.perform now' r.call).1)
      reg'.status.conditions := by
  obtain ⟨o, c, rfl, hkey, hversion, hconditions⟩ := hr
  change (s.updateStatus o).store.find? Registration key = some reg' at hf
  change Report.Date (noted reports (some now) (.updateStatus o) (s.updateStatus o).answer) _
  obtain ⟨e, hp⟩ | ⟨current, hacc, hp⟩ := updateStatus_cases hs.registration o
  · rw [hp] at hf ⊢
    exact hdate reg' hf
  · obtain rfl := hrecent.eq_of_accepted hkey hversion hacc
    have htaken : ∃ stored, (s.updateStatus o).answer = .ok stored ∧ reg'.status = o.status := by
      obtain ⟨hsame, hp⟩ | ⟨next, rfl, -, hp⟩ := hp <;> rw [hp] at hf ⊢
      · rw [← hkey, hacc.found] at hf
        obtain rfl := Option.some.inj hf
        exact ⟨_, rfl, hsame.symm⟩
      · rw [find?_put, key_raised, key_withStatus, (hs.registration.proper hacc.found).key_eq,
          if_pos hkey.symm] at hf
        obtain rfl := Option.some.inj hf
        exact ⟨_, rfl, rfl⟩
    obtain ⟨stored, hanswer, hstatus⟩ := htaken
    rw [hanswer, noted_ok (Call.told?_updateStatus o), hstatus, hconditions]
    exact (hdate current (hkey ▸ hacc.found)).merge c now

theorem date_of_patches (hs : s.Sound) (hr : r.Patches) (now : Time)
    (hdate : ∀ reg, s.find? Registration key = some reg →
      Report.Date reports reg.status.conditions) {reg' : Registration}
    (hf : (r.serve now s).find? Registration key = some reg') :
    Report.Date (noted reports reading r.call (s.perform now r.call).1) reg'.status.conditions := by
  obtain ⟨reg, hfound, hstatus⟩ := hr.find? hs hf
  rw [noted_of_told?_eq_none (Request.told?_of_patches hr), ← hstatus]
  exact hdate reg hfound

/-- A call of a pass keeps the date of the stored conditions. -/
theorem Informed.perform {β : Type} {c : Call β}
    {next : Except StoreError β → Program (Except PassError Outcome)}
    (h : Informed rec key s reading (.call c next)) (hs : s.Sound) (now : Time)
    (hdate : ∀ reg, s.find? Registration key = some reg →
      Report.Date reports reg.status.conditions) :
    (s.perform now c).2.Sound ∧
    (∀ reg, (s.perform now c).2.find? Registration key = some reg →
      Report.Date (noted reports reading c (s.perform now c).1) reg.status.conditions) ∧
    Informed rec key (s.perform now c).2 reading (next (s.perform now c).1) := by
  obtain hfresh | ⟨hmakes, hanswers, -⟩ | ⟨reg, hrecent, hannounces⟩ := h
  · obtain ⟨follow, hrun, hfails, hreads⟩ := rec.announces_reconcile key
    rw [hrun] at hfresh
    cases hfresh
    refine ⟨hs, fun reg hf => ?_, .inr ?_⟩
    · rw [noted_of_told?_eq_none rfl]
      exact hdate reg hf
    change (follow (s.get Registration key)).KeepsTo _ _ ∨
      ∃ reg, s.Recent key reg ∧ (follow (s.get Registration key)).Announces key reg reading
    rw [hs.registration.get_eq]
    rcases hf : s.find? Registration key with _ | reg
    · exact .inl (hfails _)
    · refine .inr ⟨reg, fun current hcurrent => .inl ?_,
        hreads reg reading (hs.registration.proper hf).key_eq⟩
      exact Option.some.inj (hcurrent.symm.trans hf)
  · cases hmakes with
    | of r hr =>
      exact ⟨r.sound_serve hs now, fun reg hf => date_of_patches hs hr now hdate hf,
        .inr (.inl (hanswers s now hs))⟩
  · obtain ⟨hmakes, hanswers, -⟩ | ⟨hmakes, hanswers, -⟩ := hannounces
    · cases hmakes with
      | of r hr =>
        have hsame := Request.find?_registration_of_domain hs now hr key
        refine ⟨r.sound_serve hs now, fun reg' hf => ?_, .inr (.inr ⟨reg, hrecent.of_eq hsame,
          hanswers s now hs⟩)⟩
        rw [noted_of_told?_eq_none (Request.told?_of_domain hr)]
        exact hdate reg' (hsame.symm.trans hf)
    · cases hmakes with
      | of r hr =>
        refine ⟨r.sound_serve hs now, fun reg' hf => ?_, .inr (.inl (hanswers s now hs))⟩
        obtain hpatches | ⟨shown, rfl, hannounced⟩ := hr
        · exact date_of_patches hs hpatches now hdate hf
        · exact date_of_announces hs hrecent hannounced now hdate hf

theorem Informed.fail {β : Type} {c : Call β}
    {next : Except StoreError β → Program (Except PassError Outcome)}
    (h : Informed rec key s reading (.call c next)) (e : StoreError) :
    Informed rec key s reading (next (.error e)) := by
  obtain hfresh | ⟨-, -, hfails⟩ | ⟨reg, hrecent, ⟨-, -, hfails⟩ | ⟨-, -, hfails⟩⟩ := h
  · obtain ⟨follow, hrun, hfails, -⟩ := rec.announces_reconcile key
    rw [hrun] at hfresh
    cases hfresh
    exact .inr (.inl (hfails e))
  · exact .inr (.inl (hfails e))
  · exact .inr (.inr ⟨reg, hrecent, hfails e⟩)
  · exact .inr (.inl (hfails e))

theorem Informed.clock {next : Time → Program (Except PassError Outcome)}
    (h : Informed rec key s reading (.clock next)) (now : Time) :
    Informed rec key s (some now) (next now) := by
  obtain hfresh | hkeeps | ⟨reg, hrecent, hannounces⟩ := h
  · obtain ⟨follow, hrun, -⟩ := rec.announces_reconcile key
    rw [hrun] at hfresh
    cases hfresh
  · exact .inr (.inl (hkeeps now))
  · exact .inr (.inr ⟨reg, hrecent, hannounces now⟩)

theorem Informed.outside {p : Program (Except PassError Outcome)}
    (h : Informed rec key s reading p) (hs : s.Sound) (hr : r.Outside key) (now : Time) :
    Informed rec key (r.serve now s) reading p := by
  obtain hfresh | hkeeps | ⟨reg, hrecent, hannounces⟩ := h
  · exact .inl hfresh
  · exact .inr (.inl hkeeps)
  · exact .inr (.inr ⟨reg, hrecent.outside hs hr now, hannounces⟩)

theorem kept_setPass {site : Site Unit (Except PassError Outcome)} (hs : site.store.Sound)
    (hdate : ∀ reg, site.store.find? Registration key = some reg →
      Report.Date reports reg.status.conditions) {p? : Option (Program (Except PassError Outcome))}
    (hp : ∀ p, p? = some p → Informed rec key site.store reading p) :
    Kept rec key ⟨site.setPass () p?, reading, reports⟩ :=
  ⟨hs, hdate, fun p hq => hp p (by simpa [Site.setPass] using hq)⟩

/-- Every move keeps what holds of passes one after another. -/
theorem Kept.step {h : Chronicle} (hkept : h.Kept rec key) {move : Move Unit}
    (hmove : ∀ r now, move = .client r now → r.Outside key) : (h.step rec key move).Kept rec key := by
  obtain ⟨⟨store, passes⟩, reading, reports⟩ := h
  have ⟨hs, hdate, hinformed⟩ := hkept
  cases move with
  | begin i =>
    simp only [Chronicle.step, Site.step]
    rcases hp : passes () with _ | p
    · refine kept_setPass hs hdate fun q hq => ?_
      obtain rfl := Option.some.inj hq
      exact .inl rfl
    · exact hkept
  | perform i now =>
    simp only [Chronicle.step, Site.step]
    rcases hp : passes () with _ | _ | ⟨c, next⟩ | next
    · exact hkept
    · exact hkept
    · obtain ⟨ht, hdate', hnext⟩ := (hinformed _ hp).perform hs now hdate
      refine kept_setPass ht hdate' fun q hq => ?_
      obtain rfl := Option.some.inj hq
      exact hnext
    · refine kept_setPass hs hdate fun q hq => ?_
      obtain rfl := Option.some.inj hq
      exact (hinformed _ hp).clock now
  | fail i e =>
    simp only [Chronicle.step, Site.step]
    rcases hp : passes () with _ | _ | ⟨c, next⟩ | next
    · exact hkept
    · exact hkept
    · refine kept_setPass hs hdate fun q hq => ?_
      obtain rfl := Option.some.inj hq
      exact (hinformed _ hp).fail e
    · exact hkept
  | leave i =>
    refine kept_setPass hs hdate fun q hq => ?_
    cases hq
  | client r now =>
    have hr := hmove r now rfl
    refine ⟨r.sound_serve hs now, fun reg hf => ?_, fun p hp => (hinformed p hp).outside hs hr now⟩
    obtain ⟨o, hfound, rfl | ⟨-, rfl⟩⟩ := hr.find? hs hf
    · exact hdate reg hfound
    · exact hdate o hfound

theorem Kept.run : ∀ {moves : List (Move Unit)} {h : Chronicle}, h.Kept rec key →
    (∀ r now, .client r now ∈ moves → r.Outside key) → (h.run rec key moves).Kept rec key
  | [], _, hkept, _ => hkept
  | _ :: _, _, hkept, hmoves =>
    (hkept.step fun r now hmove => hmoves r now (by simp [hmove])).run fun r now hmove =>
      hmoves r now (List.mem_cons_of_mem _ hmove)

theorem kept_fresh (hs : s.Sound)
    (hbare : ∀ reg, s.find? Registration key = some reg → reg.status.conditions = []) :
    (fresh s).Kept rec key :=
  ⟨hs, hbare, fun _ hp => absurd hp (by simp [fresh, Site.quiet])⟩

end Kept

/-- Passes over one registration, one after another, among others that change domains or mark it as
deleting: when something has been told of it and it is still stored, it has one condition, which has
held since the clock reading of the first of the latest reports in a row that told the same. -/
theorem since_first_of_block (rec : Reconciler) (key : Key) {s : Store} (hs : s.Reachable)
    {reg : Registration} (hf : s.find? Registration key = some reg)
    (hbare : reg.status.conditions = []) {moves : List (Move Unit)}
    (houtside : ∀ r now, .client r now ∈ moves → r.Outside key) :
    let h := (fresh s).run rec key moves
    ∀ reg', h.site.store.find? Registration key = some reg' →
      Report.Date h.reports reg'.status.conditions := by
  have hfresh : (fresh s).Kept rec key := kept_fresh (sound_of_reachable hs) fun reg' hf' => by
    obtain rfl := Option.some.inj (hf.symm.trans hf')
    exact hbare
  exact (hfresh.run houtside).date

def latecomer : Registration :=
  Registration.named "team" "web"

/-- A pass to its end, and what the clock shows it. -/
def passage (calls : Nat) (now : Time) : List (Move Unit) :=
  .begin () :: List.replicate calls (.perform () now) ++ [.leave ()]

def oneOClock : Time :=
  { Time.epoch with hour := ⟨1, by decide⟩ }

/-- The finalizer goes on, then two passes tell the same, the later one with the clock an hour
back. -/
def rewound : List (Move Unit) :=
  passage 2 .epoch ++ passage 6 oneOClock ++ passage 5 .epoch

/-- The condition keeps the time of the first of the two. -/
theorem latecomer_since_one :
    let s := empty.after [(.create .registration latecomer, .epoch)]
    let key := Resource.key latecomer
    s.Reachable ∧
    (∃ reg, s.find? Registration key = some reg ∧ reg.status.conditions = []) ∧
    (∀ r now, .client r now ∈ rewound → r.Outside key) ∧
    ∃ reg c, ((fresh s).run {} key rewound).site.store.find? Registration key = some reg ∧
      reg.status.conditions = [c] ∧ c.since = some oneOClock := by
  intro s key
  have hreach : s.Reachable := ⟨_, rfl⟩
  have hquiet : ∀ r now, .client r now ∈ rewound → r.Outside key := by
    simp [rewound, passage]
  have hbefore : (s.find? Registration key).map (·.status.conditions) = some [] := by
    decide +kernel
  have hafter : (((fresh s).run {} key rewound).site.store.find? Registration key).isSome := by
    decide +kernel
  have hreports : ((fresh s).run {} key rewound).reports =
      [⟨[(.verified, .isFalse)], some .epoch⟩, ⟨[(.verified, .isFalse)], some oneOClock⟩] := by
    decide +kernel
  obtain ⟨reg, hf, hbare⟩ := Option.map_eq_some_iff.1 hbefore
  obtain ⟨reg', hf'⟩ := Option.isSome_iff_exists.1 hafter
  have hdate := since_first_of_block {} key hreach hf hbare hquiet reg' hf'
  rw [hreports] at hdate
  obtain ⟨c, first, now, hconditions, -, hfirst, hreading, hsince⟩ := hdate
  obtain rfl : first = ⟨[(.verified, .isFalse)], some oneOClock⟩ := (Option.some.inj hfirst).symm
  exact ⟨hreach, ⟨reg, hf, hbare⟩, hquiet, reg', c, hf', hconditions, hsince.trans hreading.symm⟩

end Chronicle

end Registrar
