import Registrar.Proofs.Store.Request
import Registrar.Proofs.Uid

/-!
# Stale writes

A write is taken when the version it starts from is the stored one. As long as an object lives, its
version grows by one with each change (`living_or_younger`), so within `2 ^ 64` requests a version
that comes again means that nothing has changed. An object made anew under the key starts again
from version one, with a uid that was never handed out before: a write that starts from an object
of the same uid is never stale, and one that starts from an earlier object of the key always is
(`steady_iff_same_uid`).
-/

namespace Registrar

open Resource

namespace Store

variable {R : Type} [Resource R] {s : Store}

/-- The uid of whatever is stored comes after the first `n`. -/
def YoungerThan (n : Nat) (stored : Option R) : Prop :=
  ∀ o, stored = some o → ∃ i, n < i ∧ (metadata o).uid = Uid.nth i

/-- The uid of whatever is stored is among the first `n`. -/
def Issued (n : Nat) (stored : Option R) : Prop :=
  ∀ o, stored = some o → ∃ i, i ≤ n ∧ (metadata o).uid = Uid.nth i

/-- The object of a key is the same at each moment of a list of requests. -/
def Steady (s : Store) (R : Type) [Resource R] (key : Key) (requests : List (Request × Time)) :
    Prop :=
  ∀ front, front <+: requests → (s.after front).find? R key = s.find? R key

theorem YoungerThan.uid_ne {n : Nat} {stored : Option R} {o : R} {uid : String}
    (h : YoungerThan n stored) (ho : stored = some o) (huid : ∃ i, i ≤ n ∧ uid = Uid.nth i) :
    (metadata o).uid ≠ uid := by
  intro heq
  obtain ⟨i, hi, hi'⟩ := huid
  obtain ⟨j, hj, hj'⟩ := h o ho
  have hij := Uid.nth_injective (hj'.symm.trans (heq.trans hi'))
  omega

namespace Fate

variable [Parts R] {m m' : Nat} {before behind : Option R}

theorem youngerThan {n : Nat} (h : Fate m m' before behind) (hn : n ≤ m)
    (hbefore : YoungerThan n before) : YoungerThan n behind := by
  intro o ho
  cases h with
  | same => exact hbefore o ho
  | created uid step _ =>
    obtain rfl := Option.some.inj ho
    exact ⟨m', by omega, uid⟩
  | changed uid _ _ =>
    obtain rfl := Option.some.inj ho
    rw [uid]
    exact hbefore _ rfl
  | removed => simp at ho

theorem issued (h : Fate m m' before behind) (hle : m ≤ m') (hbefore : Issued m before) :
    Issued m' behind := by
  intro o ho
  cases h with
  | same =>
    obtain ⟨i, hi, huid⟩ := hbefore o ho
    exact ⟨i, by omega, huid⟩
  | created uid _ _ =>
    obtain rfl := Option.some.inj ho
    exact ⟨m', Nat.le_refl m', uid⟩
  | changed uid _ _ =>
    obtain rfl := Option.some.inj ho
    obtain ⟨i, hi, huid⟩ := hbefore _ rfl
    exact ⟨i, by omega, uid.trans huid⟩
  | removed => simp at ho

end Fate

section Runs

variable {k : Kind} {key : Key}

theorem youngerThan_after {n : Nat} : ∀ {s : Store} (requests : List (Request × Time)), s.Sound →
    n ≤ s.issued → YoungerThan n (s.find? k.Object key) →
      YoungerThan n ((s.after requests).find? k.Object key)
  | _, [], _, _, h => h
  | _, (r, now) :: rest, hs, hn, h =>
    youngerThan_after rest (r.sound_serve hs now) (Nat.le_trans hn (r.issued_le_serve hs now))
      ((r.fate_serve hs now k key).youngerThan hn h)

theorem issued_after : ∀ {s : Store} (requests : List (Request × Time)), s.Sound →
    Issued s.issued (s.find? k.Object key) →
      Issued (s.after requests).issued ((s.after requests).find? k.Object key)
  | _, [], _, h => h
  | _, (r, now) :: rest, hs, h =>
    issued_after rest (r.sound_serve hs now)
      ((r.fate_serve hs now k key).issued (r.issued_le_serve hs now) h)

theorem issued_of_reachable (h : s.Reachable) : Issued s.issued (s.find? k.Object key) := by
  obtain ⟨requests, rfl⟩ := h
  exact issued_after requests Sound.empty fun o ho => by simp [find?, value?, empty] at ho

/-- After some requests an object lives on, its version raised as often as it has changed, or
whatever its key holds is younger. -/
theorem living_or_younger :
    ∀ {s : Store} {o : k.Object} (requests : List (Request × Time)), s.Sound →
    s.find? k.Object key = some o →
    (∃ d n, (s.after requests).find? k.Object key = some d ∧ (metadata d).uid = (metadata o).uid ∧
      n ≤ requests.length ∧
      (metadata d).resourceVersion = (metadata o).resourceVersion + UInt64.ofNat n ∧
      (n = 0 → s.Steady k.Object key requests)) ∨
    YoungerThan s.issued ((s.after requests).find? k.Object key)
  | s, o, [], _, hf => by
    refine .inl ⟨o, 0, hf, rfl, Nat.le_refl 0, by simp, fun _ front hfront => ?_⟩
    rw [List.prefix_nil.1 hfront, after]
  | s, o, (r, now) :: rest, hs, hf => by
    have hs' := r.sound_serve hs now
    have hle := r.issued_le_serve hs now
    have hfate := r.fate_serve hs now k key
    rw [hf] at hfate
    generalize hf' : (r.serve now s).find? k.Object key = later at hfate
    cases hfate with
    | same =>
      rcases living_or_younger rest hs' hf' with ⟨d, n, hd, huid, hn, hversion, hsteady⟩ | hyoung
      · refine .inl ⟨d, n, hd, huid, by simp; omega, hversion, fun hzero front hfront => ?_⟩
        cases front with
        | nil => rfl
        | cons first front =>
          obtain ⟨rfl, hrest⟩ := List.cons_prefix_cons.1 hfront
          rw [after, hsteady hzero front hrest, hf', hf]
      · exact .inr fun e he => (hyoung e he).imp fun i hi => ⟨by omega, hi.2⟩
    | changed uid version _ =>
      rcases living_or_younger rest hs' hf' with ⟨d, n, hd, huid, hn, hversion, -⟩ | hyoung
      · refine .inl ⟨d, n + 1, hd, huid.trans uid, by simp; omega, ?_, fun hzero => by omega⟩
        rw [hversion, version, UInt64.ofNat_add, UInt64.add_assoc, UInt64.add_comm 1]
        rfl
      · exact .inr fun e he => (hyoung e he).imp fun i hi => ⟨by omega, hi.2⟩
    | removed =>
      refine .inr (youngerThan_after rest hs' hle fun e he => ?_)
      simp [hf'] at he

end Runs

end Store

namespace Request

open Store

variable {s : Store} {now : Time} {k : Kind} {key : Key} {o : k.Object}

/-- The answer to a request carries an object. -/
inductive Gives (s : Store) (now : Time) : Request → (k : Kind) → k.Object → Prop
  | get {k : Kind} {key : Key} {o : k.Object} (h : s.get k.Object key = .ok o) :
      Gives s now (.get k key) k o
  | list {k : Kind} {os : List k.Object} {o : k.Object} (h : s.list k.Object = .ok os)
      (ho : o ∈ os) : Gives s now (.list k) k o
  | create {k : Kind} {object o : k.Object} (h : (s.create now object).answer = .ok o) :
      Gives s now (.create k object) k o
  | patch {k : Kind} {base mutated o : k.Object} (h : (s.patch base mutated).answer = .ok o) :
      Gives s now (.patch k base mutated) k o
  | updateStatus {k : Kind} {object o : k.Object} (h : (s.updateStatus object).answer = .ok o) :
      Gives s now (.updateStatus k object) k o

/-- A request writes what it made from an object: a patch of it, or a status under its metadata. -/
inductive StartsFrom {k : Kind} (o : k.Object) : Request → Prop
  | patch (mutated : k.Object) : StartsFrom o (.patch k o mutated)
  | updateStatus {object : k.Object} (h : metadata object = metadata o) :
      StartsFrom o (.updateStatus k object)

/-- What a request gives is what it leaves under the key, or the last that was there. -/
theorem Gives.find? {r : Request} (h : r.Gives s now k o) (hs : s.Sound) :
    (r.serve now s).find? k.Object (Resource.key o) = some o ∨
    ((r.serve now s).find? k.Object (Resource.key o) = none ∧
      ∃ current, s.find? k.Object (Resource.key o) = some current ∧
        (metadata o).uid = (metadata current).uid) := by
  cases h with
  | @get k key o h =>
    have hf := (hs k).get_eq_ok h
    rw [← ((hs k).proper hf).key_eq] at hf
    exact .inl hf
  | @list k os o h ho => exact .inl ((hs k).find?_of_mem_list h ho)
  | @create k object o h =>
    obtain ⟨e, hc⟩ | ⟨new, -, -, -, hc⟩ := create_cases (s := s) now object <;> rw [hc] at h
    · simp at h
    · obtain rfl := Except.ok.inj h
      refine .inl ?_
      change (s.create now object).store.find? k.Object _ = _
      rw [hc, find?_put_self]
  | @patch k base mutated o h =>
    obtain ⟨e, hp⟩ | ⟨current, hacc, hkey, hp⟩ := patch_cases (hs k) base mutated
    · rw [hp] at h
      simp at h
    · have hcurrent := ((hs k).proper hacc.found).key_eq
      have hserve : (serve (.patch k base mutated) now s) = (s.patch base mutated).store := rfl
      rw [hserve]
      obtain ⟨-, hp⟩ | ⟨next, changed, rfl, -, -, -, ⟨-, -, hp⟩ | ⟨-, hp⟩⟩ := hp <;>
        rw [hp] at h ⊢ <;>
        obtain rfl := Except.ok.inj h
      · exact .inl (hcurrent ▸ hacc.found)
      · rw [key_raised, key_merged, hkey]
        exact .inr
          ⟨find?_drop_self, current, hacc.found, by simp [raised, merged, withServerFields]⟩
      · exact .inl find?_put_self
  | @updateStatus k object o h =>
    have hserve : (serve (.updateStatus k object) now s) = (s.updateStatus object).store := rfl
    rw [hserve]
    obtain ⟨e, hp⟩ | ⟨current, hacc, ⟨-, hp⟩ | ⟨next, rfl, -, hp⟩⟩ :=
      updateStatus_cases (hs k) object
      <;> rw [hp] at h ⊢
    · simp at h
    · obtain rfl := Except.ok.inj h
      exact .inl (((hs k).proper hacc.found).key_eq ▸ hacc.found)
    · obtain rfl := Except.ok.inj h
      exact .inl find?_put_self

theorem Gives.issued {r : Request} (h : r.Gives s now k o) (hs : s.Sound)
    (hissued : Issued s.issued (s.find? k.Object (Resource.key o))) :
    ∃ i, i ≤ (r.serve now s).issued ∧ (metadata o).uid = Uid.nth i := by
  have hle := r.issued_le_serve hs now
  rcases h.find? hs with hf | ⟨-, last, hf, huid⟩
  · exact (r.fate_serve hs now k (Resource.key o)).issued hle hissued o hf
  · obtain ⟨i, hi, hlast⟩ := hissued last hf
    exact ⟨i, Nat.le_trans hi hle, huid.trans hlast⟩

theorem StartsFrom.accepted {q : Request} (h : q.StartsFrom o) (hs : s.Sound)
    (taken : (s.perform now q.call).1.isOk) : ∃ current, s.Accepted o current := by
  cases h with
  | patch mutated =>
    have htaken : (s.patch o mutated).answer.isOk := taken
    obtain ⟨e, hp⟩ | ⟨current, hacc, -⟩ := patch_cases (hs k) o mutated
    · simp [hp, Except.isOk, Except.toBool] at htaken
    · exact ⟨current, hacc⟩
  | @updateStatus object hmeta =>
    have htaken : (s.updateStatus object).answer.isOk := taken
    obtain ⟨e, hp⟩ | ⟨current, ⟨hf, hversion⟩, -⟩ := updateStatus_cases (hs k) object
    · simp [hp, Except.isOk, Except.toBool] at htaken
    · refine ⟨current, ?_, ?_⟩
      · rwa [Resource.key, hmeta, ← Resource.key] at hf
      · rwa [hmeta] at hversion

end Request

namespace Store

/-- A write that is taken starts from what has not changed since, just when the stored object still
has the uid of what the write starts from. -/
theorem steady_iff_same_uid (front between : List (Request × Time)) {r q : Request}
    {now later : Time} {k : Kind} {o : k.Object}
    (short : (front ++ (r, now) :: between).length < 2 ^ 64)
    (given : r.Gives (empty.after front) now k o) (starts : q.StartsFrom o)
    (taken : ((empty.after (front ++ (r, now) :: between)).perform later q.call).1.isOk) :
    (empty.after (front ++ [(r, now)])).Steady k.Object (key o) between ↔
    ∃ current, (empty.after (front ++ (r, now) :: between)).find? k.Object (key o) = some current ∧
      (metadata current).uid = (metadata o).uid := by
  have hsound : (empty.after front).Sound := Sound.empty.after front
  have hissued : Issued (empty.after front).issued ((empty.after front).find? k.Object (key o)) :=
    issued_of_reachable ⟨front, rfl⟩
  have hmid : empty.after (front ++ [(r, now)]) = r.serve now (empty.after front) := by
    rw [after_append]
    rfl
  have hend : empty.after (front ++ (r, now) :: between)
      = (r.serve now (empty.after front)).after between := by
    rw [after_append]
    rfl
  rw [hend] at taken ⊢
  rw [hmid]
  generalize empty.after front = s at *
  have hsound' := r.sound_serve hsound now
  obtain ⟨current, hfound, hversion⟩ := starts.accepted (hsound'.after between) taken
  -- An object that is younger than all that was there when `o` was given has another uid.
  have hyounger : YoungerThan (r.serve now s).issued
      (((r.serve now s).after between).find? k.Object (key o)) →
      (metadata current).uid ≠ (metadata o).uid :=
    fun hyoung => hyoung.uid_ne hfound (given.issued hsound hissued)
  have hafter : (r.serve now s).Steady k.Object (key o) between →
      some current = (r.serve now s).find? k.Object (key o) := fun hsteady => by
    rw [← hfound, hsteady between (List.prefix_refl between)]
  rcases given.find? hsound with hf | ⟨hf, -⟩
  · rcases living_or_younger between hsound' hf with
      ⟨d, n, hd, hduid, hn, hdversion, hsteady⟩ | hyoung
    · obtain rfl : current = d := Option.some.inj (hfound.symm.trans hd)
      have hzero : n = 0 := by
        simp only [List.length_append, List.length_cons] at short
        exact eq_zero_of_raised (hversion.trans hdversion) (by omega)
      exact ⟨fun _ => ⟨current, hfound, hduid⟩, fun _ => hsteady hzero⟩
    · refine ⟨fun hsteady => ?_, fun ⟨d, hd, hduid⟩ => ?_⟩
      · obtain rfl : current = o := Option.some.inj ((hafter hsteady).trans hf)
        exact ⟨current, hfound, rfl⟩
      · obtain rfl : current = d := Option.some.inj (hfound.symm.trans hd)
        exact absurd hduid (hyounger hyoung)
  · have hnone : YoungerThan (r.serve now s).issued ((r.serve now s).find? k.Object (key o)) := by
      rw [hf]
      exact fun e he => absurd he (by simp)
    have hyoung := youngerThan_after between hsound' (Nat.le_refl _) hnone
    refine ⟨fun hsteady => ?_, fun ⟨d, hd, hduid⟩ => ?_⟩
    · exact absurd ((hafter hsteady).trans hf) (by simp)
    · obtain rfl : current = d := Option.some.inj (hfound.symm.trans hd)
      exact absurd hduid (hyounger hyoung)

/-- A domain as it is first stored. -/
def firstDomain : Domain :=
  stamped (Domain.named "example.org") (Uid.nth 1) .epoch

/-- The same domain with a key for verification. -/
def keyedDomain : Domain :=
  { firstDomain with spec.verificationKey := some "key" }

theorem gives_firstDomain : (Request.create .domain (Domain.named "example.org")).Gives
    (empty.after []) .epoch .domain firstDomain :=
  .create (by decide +kernel : (empty.create .epoch (Domain.named "example.org")).answer
    = .ok firstDomain)

/-- A patch of a domain that has only been listed since it was created. -/
theorem patch_of_listed_domain :
    ([] ++ (Request.create .domain (Domain.named "example.org"), Time.epoch) ::
      [(.list .domain, .epoch)]).length < 2 ^ 64 ∧
    (Request.create .domain (Domain.named "example.org")).Gives (empty.after []) .epoch .domain
      firstDomain ∧
    (Request.patch .domain firstDomain keyedDomain).StartsFrom (k := .domain) firstDomain ∧
    ((empty.after ([] ++ (Request.create .domain (Domain.named "example.org"), Time.epoch) ::
      [(.list .domain, .epoch)])).perform .epoch
        (Request.patch .domain firstDomain keyedDomain).call).1.isOk ∧
    ((empty.after ([] ++ [(.create .domain (Domain.named "example.org"), .epoch)])).Steady Domain
      (key firstDomain) [(.list .domain, .epoch)] ↔
    ∃ current, (empty.after ([] ++ (.create .domain (Domain.named "example.org"), Time.epoch) ::
      [(.list .domain, .epoch)])).find? Domain (key firstDomain) = some current ∧
      (metadata current).uid = (metadata firstDomain).uid) := by
  have htaken : ((empty.after ([] ++ (Request.create .domain (Domain.named "example.org"),
      Time.epoch) :: [(.list .domain, .epoch)])).perform .epoch
        (Request.patch .domain firstDomain keyedDomain).call).1.isOk := by
    decide +kernel
  exact ⟨by decide, gives_firstDomain, .patch _, htaken,
    steady_iff_same_uid [] _ (by decide) gives_firstDomain (.patch _) htaken⟩

/-- A write is taken that starts from a domain deleted and made anew since. -/
theorem taken_write_not_steady :
    ¬ ∀ (front between : List (Request × Time)) (r q : Request) (now later : Time) (k : Kind)
      (o : k.Object),
      (front ++ (r, now) :: between).length < 2 ^ 64 →
      r.Gives (empty.after front) now k o → q.StartsFrom o →
      ((empty.after (front ++ (r, now) :: between)).perform later q.call).1.isOk →
      (empty.after (front ++ [(r, now)])).Steady k.Object (key o) between := by
  intro h
  have hsteady := h []
    [(.delete .domain { name := "example.org" }, .epoch),
      (.create .domain (Domain.named "example.org"), .epoch)]
    (.create .domain (Domain.named "example.org")) (.patch .domain firstDomain keyedDomain) .epoch
    .epoch .domain firstDomain (by decide) gives_firstDomain (.patch _) (by decide +kernel)
  have hgone := hsteady [(.delete .domain { name := "example.org" }, .epoch)] (by simp)
  have hdeleted : (empty.after [(.create .domain (Domain.named "example.org"), .epoch),
      (.delete .domain { name := "example.org" }, .epoch)]).find? Domain { name := "example.org" }
        = none := by
    decide +kernel
  have hthere : (empty.after [(.create .domain (Domain.named "example.org"), .epoch)]).find? Domain
      { name := "example.org" } = some firstDomain := by
    decide +kernel
  have hnone : none = some firstDomain := hdeleted.symm.trans (hgone.trans hthere)
  exact absurd hnone (by simp)

end Store

end Registrar
