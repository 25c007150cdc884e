import Registrar.Proofs.Passes.Visits
import Registrar.Proofs.Runs

/-!
# Verification is kept

That a registration is verified stands in its condition alone, which every pass replaces. It stays
verified through any passes as long as none of them binds it, fails to read its domain after that,
and gets to tell so (`verified_iff_not_misjudged`). Verification that is lost is not found again.
-/

namespace Registrar

open Resource Parts Store

/-- The registration of a key is verified, as its conditions tell. -/
def Store.Verified (s : Store) (key : Key) : Prop :=
  ∃ reg, s.find? Registration key = some reg ∧
    Condition.holds reg.status.conditions .verified = true

namespace Reconciler

variable {rec : Reconciler} {reg : Registration} {d : Domain} {s : Store} {v : Visit}

/-- A registration can stay verified: it is live and holds the finalizer, and its domain has a key
and a hostname of which a record name can be formed. -/
structure Verifiable (rec : Reconciler) (reg : Registration) (d : Domain) (s : Store) : Prop where
  found : s.find? Registration (Resource.key reg) = some reg
  live : reg.metadata.isDeleting = false
  marked : reg.metadata.hasFinalizer rec.finalizer = true
  domain : s.find? Domain (Binding.domainKey reg) = some d
  keyed : d.spec.verificationKey ≠ none
  named : ∃ name, Hostname.recordName rec.verifier.label d.hostname = .ok name

/-- A pass binds a registration, fails to read its domain after that, and tells so. -/
def Misjudges (rec : Reconciler) (key : Key) (w : Port) : Prop :=
  w.failures w.calls = none ∧ ∃ reg u, w.store.find? Registration key = some reg ∧
    (Binding.register reg rec.attempts).exec w.skip = (.ok (), u) ∧
    w.failures u.calls ≠ none ∧ w.failures (u.calls + 1) = none

/-- One of the visits misjudges the registration of a key. -/
def MisjudgedIn (rec : Reconciler) (key : Key) (s : Store) (visits : List Visit) : Prop :=
  HappensIn rec.after (fun s v => v.key = key ∧ rec.Misjudges key (v.port s)) s visits

/-- How a visit leaves the status of a registration: as it was, told of its domain, or told of a
read that failed. -/
inductive Judged (rec : Reconciler) (reg : Registration) (d : Domain) (w : Port) :
    Registration.Status → Prop
  | untold (sound : ¬rec.Misjudges (Resource.key reg) w) : Judged rec reg d w reg.status
  | told (sound : ¬rec.Misjudges (Resource.key reg) w) :
      Judged rec reg d w (rec.liveStatus reg w.now (.ok d))
  | misjudged {e : StoreError} (misjudges : rec.Misjudges (Resource.key reg) w) :
      Judged rec reg d w (rec.liveStatus reg w.now (.error e))

namespace Verifiable

theorem misjudges_iff {w : Port} (h : rec.Verifiable reg d w.store)
    (hread : w.failures w.calls = none) : rec.Misjudges (Resource.key reg) w ↔
      ∃ u, (Binding.register reg rec.attempts).exec w.skip = (.ok (), u) ∧
        w.failures u.calls ≠ none ∧ w.failures (u.calls + 1) = none := by
  constructor
  · rintro ⟨-, reg', u, hfound, hrun⟩
    obtain rfl := Option.some.inj (h.found.symm.trans hfound)
    exact ⟨u, hrun⟩
  · rintro ⟨u, hrun⟩
    exact ⟨hread, reg, u, h.found, hrun⟩

/-- A pass that has bound the registration tells of its domain, unless it fails to read it. -/
theorem judged_announce {w u : Port} (h : rec.Verifiable reg d w.store) (hs : w.store.Sound)
    (hread : w.failures w.calls = none)
    (hrun : (Binding.register reg rec.attempts).exec w.skip = (.ok (), u)) :
    ∃ version status, ((rec.announce reg).exec u).2.store.find? Registration (Resource.key reg)
      = some (reg.restated version status) ∧ Judged rec reg d w status := by
  have hmisjudges : rec.Misjudges (Resource.key reg) w ↔
      w.failures u.calls ≠ none ∧ w.failures (u.calls + 1) = none := by
    rw [h.misjudges_iff hread, hrun]
    simp
  have hbefore := Pass.before_exec (Binding.register reg rec.attempts) w.skip
  have hconfined := confined_register (w := w.skip) rec.finalizer hs reg rec.attempts
  have hkept := (Binding.exec_register (w := w.skip) hs reg
    rec.attempts).registrations (Resource.key reg)
  rw [hrun] at hbefore hconfined hkept
  have hfailures : u.failures = w.failures := hbefore.failures_eq
  have hfound : u.store.find? Registration (Resource.key reg) = some reg := hkept.trans h.found
  obtain ⟨d', hd', hverification, hstatus⟩ := hconfined.domains _ d h.domain
  obtain ⟨hrefused, hstore⟩ | ⟨htaken, ⟨version, htold⟩, -⟩ :=
    restated_announce rec hconfined.sound hfound
  · refine ⟨reg.metadata.resourceVersion, reg.status, ?_, .untold ?_⟩
    · rw [hstore]
      exact hfound
    · rw [hmisjudges, ← hfailures]
      exact fun hcontra => hrefused hcontra.2
  · refine ⟨version, _, htold, ?_⟩
    rw [show u.now = w.now from hbefore.now_eq]
    rw [hfailures] at htaken
    rcases hdomain : w.failures u.calls with _ | e
    · have hname : d'.hostname = d.hostname := by
        rw [hostname_of_find? hconfined.sound hd', hostname_of_find? hs h.domain]
      rw [perform_domain hconfined.sound hd' (by rw [hfailures, hdomain]), liveStatus,
        verdict_congr rec reg hname hverification hstatus]
      exact .told (by simp [hmisjudges, hdomain])
    · rw [Port.perform_fails (by rw [hfailures, hdomain])]
      exact .misjudged (by simp [hmisjudges, hdomain, htaken])

theorem judged (h : rec.Verifiable reg d s) (hs : s.Sound) (hkey : v.key = Resource.key reg) :
    ∃ version status,
      (rec.after s v).find? Registration (Resource.key reg) = some (reg.restated version status) ∧
      Judged rec reg d (v.port s) status := by
  have hfound := h.found
  rcases hread : v.failures 0 with _ | e
  · rw [← hkey] at hfound
    rw [after_of_marked hs hread hfound h.live h.marked, Pass.exec_bind]
    rcases hrun : (Binding.register reg rec.attempts).exec (v.port s).skip with ⟨e | ⟨⟩, u⟩
    · have hkept := (Binding.exec_register (w := (v.port s).skip) hs reg
        rec.attempts).registrations (Resource.key reg)
      rw [hrun] at hkept
      refine ⟨reg.metadata.resourceVersion, reg.status, hkept.trans h.found, .untold ?_⟩
      rw [misjudges_iff (w := v.port s) h hread, hrun]
      simp
    · exact h.judged_announce (w := v.port s) hs hread hrun
  · have hsame : rec.after s v = s := by
      rw [after, reconcile, Pass.exec_bind, Pass.exec_ask, Port.perform_fails (w := v.port s) hread]
      dsimp only
      split <;> rfl
    refine ⟨reg.metadata.resourceVersion, reg.status, by rw [hsame]; exact hfound,
      .untold fun hmisjudges => ?_⟩
    rw [Misjudges, show (v.port s).failures (v.port s).calls = some e from hread] at hmisjudges
    simp at hmisjudges

/-- A registration that can stay verified goes on to be one, whatever is visited. -/
theorem after (h : rec.Verifiable reg d s) (hs : s.Sound) (v : Visit) :
    ∃ reg' d', rec.Verifiable reg' d' (rec.after s v) ∧ Resource.key reg' = Resource.key reg ∧
      (v.key ≠ Resource.key reg ∧ reg'.status = reg.status ∨
        v.key = Resource.key reg ∧ Judged rec reg d (v.port s) reg'.status) := by
  have hconfined := confined_after rec hs v
  obtain ⟨d', hd', hverification, -⟩ := hconfined.domains _ d h.domain
  have hname : d'.hostname = d.hostname := by
    rw [hostname_of_find? hconfined.sound hd', hostname_of_find? hs h.domain]
  have hkeyed : d'.spec.verificationKey ≠ none := hverification ▸ h.keyed
  have hnamed := hname ▸ h.named
  by_cases hkey : v.key = Resource.key reg
  · obtain ⟨version, status, hfound, hjudged⟩ := h.judged hs hkey
    exact ⟨reg.restated version status, d', ⟨hfound, h.live, h.marked, hd', hkeyed, hnamed⟩, rfl,
      .inr ⟨hkey, hjudged⟩⟩
  · have hfound := (hconfined.others _ (Ne.symm hkey)).trans h.found
    exact ⟨reg, d', ⟨hfound, h.live, h.marked, hd', hkeyed, hnamed⟩, rfl, .inl ⟨hkey, rfl⟩⟩

/-- A read domain bears out what the conditions told before. -/
theorem verdict_eq (h : rec.Verifiable reg d s) : (rec.verdict reg (.ok d)).1
    = { aspect := .verified,
        status := .ofBool (Condition.holds reg.status.conditions .verified) } := by
  obtain ⟨key, hkey⟩ := Option.ne_none_iff_exists'.1 h.keyed
  obtain ⟨name, hname⟩ := h.named
  rw [verdict_of_named rec reg hkey hname]

end Verifiable

namespace Judged

variable {w : Port} {status : Registration.Status}

theorem holds_eq (hj : Judged rec reg d w status) (h : rec.Verifiable reg d s)
    (hsound : ¬rec.Misjudges (Resource.key reg) w) :
    Condition.holds status.conditions .verified
      = Condition.holds reg.status.conditions .verified := by
  cases hj with
  | untold => rfl
  | told =>
    rw [holds_liveStatus, h.verdict_eq]
    cases Condition.holds reg.status.conditions .verified <;> rfl
  | misjudged misjudges => exact absurd misjudges hsound

theorem lost (hj : Judged rec reg d w status) (hmisjudges : rec.Misjudges (Resource.key reg) w) :
    Condition.holds status.conditions .verified = false := by
  cases hj with
  | untold sound | told sound => exact absurd hmisjudges sound
  | misjudged =>
    rw [holds_liveStatus, verdict]
    split <;> rfl

end Judged

theorem Verifiable.verified_iff (h : rec.Verifiable reg d s) : s.Verified (Resource.key reg) ↔
    Condition.holds reg.status.conditions .verified = true := by
  constructor
  · rintro ⟨reg', hfound, hholds⟩
    obtain rfl := Option.some.inj (h.found.symm.trans hfound)
    exact hholds
  · exact fun hholds => ⟨reg, h.found, hholds⟩

/-- What is not verified is not verified later either. -/
theorem Verifiable.not_verified_afterAll : ∀ (visits : List Visit) {s : Store} {reg : Registration}
    {d : Domain}, s.Sound → rec.Verifiable reg d s →
    Condition.holds reg.status.conditions .verified = false →
    ¬(rec.afterAll s visits).Verified (Resource.key reg)
  | [], _, _, _, _, h, hlost => by simp [afterAll, h.verified_iff, hlost]
  | v :: visits, s, reg, d, hs, h, hlost => by
    obtain ⟨reg', d', h', hkey, hstatus⟩ := h.after hs v
    rw [← hkey]
    refine not_verified_afterAll visits (confined_after rec hs v).sound h' ?_
    obtain ⟨-, hsame⟩ | ⟨-, hjudged⟩ := hstatus
    · rwa [hsame]
    · by_cases hmisjudges : rec.Misjudges (Resource.key reg) (v.port s)
      · exact hjudged.lost hmisjudges
      · rwa [hjudged.holds_eq h hmisjudges]

theorem verified_iff_of_sound : ∀ (visits : List Visit) {s : Store} {reg : Registration}
    {d : Domain}, s.Sound → rec.Verifiable reg d s →
    Condition.holds reg.status.conditions .verified = true →
    ((rec.afterAll s visits).Verified (Resource.key reg)
      ↔ ¬rec.MisjudgedIn (Resource.key reg) s visits)
  | [], _, _, _, _, h, hholds => iff_of_true (h.verified_iff.2 hholds) not_happensIn_nil
  | v :: visits, s, reg, d, hs, h, hholds => by
    have hs' := (confined_after rec hs v).sound
    obtain ⟨reg', d', h', hkey, hstatus⟩ := h.after hs v
    have ih := verified_iff_of_sound visits hs' h'
    rw [hkey] at ih
    rw [MisjudgedIn, happensIn_cons]
    obtain ⟨hother, hsame⟩ | ⟨hown, hjudged⟩ := hstatus
    · rw [or_iff_right fun hcontra => hother hcontra.1]
      exact ih (hsame ▸ hholds)
    · by_cases hmisjudges : rec.Misjudges (Resource.key reg) (v.port s)
      · refine iff_of_false ?_ (not_not.2 (.inl ⟨hown, hmisjudges⟩))
        rw [← hkey]
        exact h'.not_verified_afterAll visits hs' (hjudged.lost hmisjudges)
      · rw [or_iff_right fun hcontra => hmisjudges hcontra.2]
        exact ih ((hjudged.holds_eq h hmisjudges).trans hholds)

/-- A registration that can stay verified and is verified is so after any visits, unless one of them
binds it, fails to read its domain after that, and gets to tell so. -/
theorem verified_iff_not_misjudged (hs : s.Reachable) (h : rec.Verifiable reg d s)
    (hholds : Condition.holds reg.status.conditions .verified = true) (visits : List Visit) :
    (rec.afterAll s visits).Verified (Resource.key reg)
      ↔ ¬rec.MisjudgedIn (Resource.key reg) s visits :=
  verified_iff_of_sound visits (sound_of_reachable hs) h hholds

/-- A verified registration as it is stored. -/
def proven : Registration where
  metadata := {
    ns? := some "team"
    name := "app"
    uid := Uid.nth 1
    resourceVersion := 2
    generation := 1
    creationTime := some .epoch
    finalizers := [({} : Reconciler).finalizer] }
  status := { conditions := [{ aspect := .verified, status := .isTrue, since := some .epoch }] }

/-- The domain that the registration asks for, as it is stored. -/
def keyed : Domain where
  metadata := {
    name := "app"
    uid := Uid.nth 2
    resourceVersion := 1
    generation := 1
    creationTime := some .epoch }
  spec := { verificationKey := some "secret" }

/-- The registration and its domain are created, and the registration is verified. -/
def proving : List (Request × Time) := [
  (.create .registration { proven with status := {} }, .epoch),
  (.create .domain keyed, .epoch),
  (.updateStatus .registration { proven with metadata.resourceVersion := 1 }, .epoch)]

/-- A visit of the registration on which one call fails. -/
def disturbed (call : Nat) : Visit where
  key := Resource.key proven
  now := .epoch
  failures n := if n = call then some { cause := .internal "down" } else none

theorem verifiable_proven : ({} : Reconciler).Verifiable proven keyed (empty.after proving) where
  found := by decide +kernel
  live := rfl
  marked := by decide
  domain := by decide +kernel
  keyed := by decide
  named := ⟨Hostname.defaultRecordLabel ++ ".app", by decide +kernel⟩

/-- It stays verified when its domain cannot be read to bind it, or its status cannot be written. -/
theorem proven_stays_verified :
    (empty.after proving).Reachable ∧
    ({} : Reconciler).Verifiable proven keyed (empty.after proving) ∧
    Condition.holds proven.status.conditions .verified = true ∧
    ¬({} : Reconciler).MisjudgedIn (Resource.key proven) (empty.after proving)
      [disturbed 1, disturbed 4] := by
  have hreach : (empty.after proving).Reachable := ⟨proving, rfl⟩
  have hfound : (({} : Reconciler).afterAll (empty.after proving)
      [disturbed 1, disturbed 4]).find? Registration (Resource.key proven) = some proven := by
    decide +kernel
  exact ⟨hreach, verifiable_proven, rfl,
    (verified_iff_not_misjudged hreach verifiable_proven rfl _).1 ⟨proven, hfound, rfl⟩⟩

/-- One read that fails at the wrong time, and a registration that has been verified, as its only
condition tells, is verified no longer. -/
theorem proven_misjudged : ¬ ∀ (rec : Reconciler) (reg : Registration) (d : Domain) (s : Store)
    (visits : List Visit), s.Reachable → rec.Verifiable reg d s →
    (∃ c, reg.status.conditions.filter (·.aspect == .verified) = [c] ∧ c.status = .isTrue) →
    (rec.afterAll s visits).Verified (Resource.key reg) := by
  intro h
  have hlost : ((({} : Reconciler).afterAll (empty.after proving) [disturbed 3]).find? Registration
      (Resource.key proven)).map (fun reg => Condition.holds reg.status.conditions .verified)
        = some false := by
    decide +kernel
  obtain ⟨reg, hfound, hholds⟩ := h {} proven keyed _ [disturbed 3] ⟨proving, rfl⟩
    verifiable_proven ⟨_, rfl, rfl⟩
  rw [hfound, Option.map_some, hholds] at hlost
  simp at hlost

end Reconciler

end Registrar
