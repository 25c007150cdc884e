import Registrar.Cluster
import Registrar.Proofs.Store.Objects

/-!
# Requests

A request is a call about registrations or domains. One call writes the object of one key at most
(`wrote_perform`), so from a sound store each object stays, is made anew with a uid that was never
handed out, gets its version raised by one, or goes (`fate`). What no call ever changes holds in
every store that requests can lead to from the empty one (`sound_of_reachable`).
-/

namespace Registrar

open Resource Parts

/-- The start of 1970. -/
def Time.epoch : Time :=
  ⟨⟨1970, 1, 1, by decide⟩, ⟨0, by decide⟩, ⟨0, by decide⟩, ⟨0, by decide⟩, ⟨0, by decide⟩⟩

/-- The kinds of objects that are kept. -/
inductive Kind where
  | registration
  | domain
  deriving DecidableEq

namespace Kind

def Object : Kind → Type
  | registration => Registration
  | domain => Domain

instance (k : Kind) : Resource k.Object :=
  match k with
  | registration => inferInstanceAs (Resource Registration)
  | domain => inferInstanceAs (Resource Domain)

instance (k : Kind) : Parts k.Object :=
  match k with
  | registration => inferInstanceAs (Parts Registration)
  | domain => inferInstanceAs (Parts Domain)

instance (k : Kind) : DecidableEq k.Object :=
  match k with
  | registration => inferInstanceAs (DecidableEq Registration)
  | domain => inferInstanceAs (DecidableEq Domain)

instance (k : Kind) : DecidableEq (Spec k.Object) :=
  match k with
  | registration => inferInstanceAs (DecidableEq Registration.Spec)
  | domain => inferInstanceAs (DecidableEq Domain.Spec)

instance (k : Kind) : DecidableEq (Status k.Object) :=
  match k with
  | registration => inferInstanceAs (DecidableEq Registration.Status)
  | domain => inferInstanceAs (DecidableEq Domain.Status)

theorem kind_ne {k k' : Kind} (h : k ≠ k') : Resource.kind k.Object ≠ Resource.kind k'.Object := by
  have hne : Resource.kind Registration ≠ Resource.kind Domain := by decide
  cases k <;> cases k'
  · exact absurd rfl h
  · exact hne
  · exact hne.symm
  · exact absurd rfl h

end Kind

/-- A version raised fewer than `2 ^ 64` times is the same only when it has not been raised. -/
theorem eq_zero_of_raised {v : UInt64} {n : Nat} (h : v = v + UInt64.ofNat n) (hn : n < 2 ^ 64) :
    n = 0 := by
  have hzero : UInt64.ofNat n = 0 := by simpa using h.symm
  have hmod := congrArg UInt64.toNat hzero
  rwa [UInt64.toNat_ofNat', Nat.mod_eq_of_lt hn] at hmod

namespace Store

variable {R : Type} [Resource R] {s t : Store} {now : Time} {β : Type}

/-- The answer to a call and the store after it. -/
def perform (s : Store) (now : Time) : Call β → Except StoreError β × Store
  | @Call.get R _ key => (s.get R key, s)
  | @Call.list R _ => (s.list R, s)
  | @Call.create _ _ object => ((s.create now object).answer, (s.create now object).store)
  | @Call.patch _ _ base mutated => ((s.patch base mutated).answer, (s.patch base mutated).store)
  | @Call.updateStatus _ _ object => ((s.updateStatus object).answer, (s.updateStatus object).store)
  | @Call.delete R _ key => ((s.delete R key now).answer, (s.delete R key now).store)

section Wrote

variable [Parts R]

/-- A call about a kind leaves the store as it is, or writes one object of the kind. -/
inductive Wrote (R : Type) [Resource R] [Parts R] (s : Store) : Store → Prop
  | same : Wrote R s s
  | created {new : R} (absent : s.find? R (Resource.key new) = none)
      (proper : Proper (Resource.key new) new) (uid : (metadata new).uid = Uid.nth (s.issued + 1))
      (version : (metadata new).resourceVersion = 1) :
      Wrote R s ({ s with issued := s.issued + 1 }.put new)
  | changed {current next : R} (found : s.find? R (Resource.key next) = some current)
      (proper : Proper (Resource.key next) next)
      (uid : (metadata next).uid = (metadata current).uid)
      (version : (metadata next).resourceVersion = (metadata current).resourceVersion + 1)
      (fixed : Resource.immutableSpec R = true → spec next = spec current) : Wrote R s (s.put next)
  | removed {key : Key} {current : R} (found : s.find? R key = some current) :
      Wrote R s (s.drop R key)

omit [Parts R] in
theorem identityFault?_congr {o p : R} (h : Resource.key o = Resource.key p) :
    identityFault? o = identityFault? p := by
  have hname : (metadata o).name = (metadata p).name := congrArg Key.name h
  have hns : (metadata o).ns? = (metadata p).ns? := congrArg Key.ns? h
  simp only [identityFault?, hname, hns]

omit [Parts R] in
theorem Proper.of_key_eq {key : Key} {o p : R} (h : Proper key o) (hkey : Resource.key p = key)
    (held : Resource.isDeleting p → (metadata p).finalizers ≠ []) : Proper (Resource.key p) p where
  key_eq := rfl
  identity := (identityFault?_congr (hkey.trans h.key_eq.symm)).trans h.identity
  held := held

theorem wrote_create (s : Store) (now : Time) (o : R) : s.Wrote R (s.create now o).store := by
  obtain ⟨e, h⟩ | ⟨new, rfl, hfault, habsent, h⟩ := create_cases (s := s) now o
  · rw [h]
    exact .same
  · rw [h]
    refine .created ?_ ⟨rfl, ?_, fun hd => ?_⟩ ?_ ?_
    · simp [find?, key_stamped, habsent]
    · rw [identityFault?_congr (key_stamped o _ now), hfault]
    · simp [Resource.isDeleting, stamped, Metadata.isDeleting] at hd
    · simp [stamped]
    · simp [stamped]

theorem wrote_patch (h : s.SoundFor R) (base mutated : R) :
    s.Wrote R (s.patch base mutated).store := by
  obtain ⟨e, hp⟩ | ⟨current, hacc, hkey, ⟨-, hp⟩ | ⟨next, changed, rfl, -, hfixed, -, ⟨-, -, hp⟩ |
    ⟨hheld, hp⟩⟩⟩ := patch_cases h base mutated
  · rw [hp]
    exact .same
  · rw [hp]
    exact .same
  · rw [hp]
    exact .removed hacc.found
  · rw [hp]
    have hnext : Resource.key (raised (merged mutated current) changed) = Resource.key base := by
      rw [key_raised, key_merged, hkey]
    refine .changed (hnext ▸ hacc.found) ((h.proper hacc.found).of_key_eq hnext hheld) ?_ ?_ ?_
    · simp [raised, merged, withServerFields]
    · simp [raised, merged, withServerFields]
    · intro him
      simpa [raised, merged, withServerFields] using hfixed him

theorem wrote_updateStatus (h : s.SoundFor R) (o : R) : s.Wrote R (s.updateStatus o).store := by
  obtain ⟨e, hp⟩ | ⟨current, hacc, ⟨-, hp⟩ | ⟨next, rfl, -, hp⟩⟩ := updateStatus_cases h o
  · rw [hp]
    exact .same
  · rw [hp]
    exact .same
  · rw [hp]
    have hcurrent := h.proper hacc.found
    have hnext : Resource.key (raised (withStatus current (status o)) false) = Resource.key o := by
      rw [key_raised, key_withStatus, hcurrent.key_eq]
    refine .changed (hnext ▸ hacc.found) (hcurrent.of_key_eq hnext fun hd => ?_) ?_ ?_ ?_
    · simpa [raised] using hcurrent.held
        (by simpa [Resource.isDeleting, Metadata.isDeleting, raised] using hd)
    · simp [raised]
    · simp [raised]
    · simp [raised]

theorem wrote_delete (h : s.SoundFor R) (key : Key) (now : Time) :
    s.Wrote R (s.delete R key now).store := by
  obtain ⟨e, hp⟩ | ⟨current, hf, ⟨-, hp⟩ | ⟨-, hp⟩ | ⟨hheld, -, hp⟩⟩ := delete_cases h key now
  · rw [hp]
    exact .same
  · rw [hp]
    exact .same
  · rw [hp]
    exact .removed hf
  · rw [hp]
    have hcurrent := h.proper hf
    have hnext : Resource.key (marked current now) = key := by
      rw [key_marked, hcurrent.key_eq]
    refine .changed (hnext ▸ hf) (hcurrent.of_key_eq hnext fun _ => ?_) ?_ ?_ ?_
    · simpa [marked, raised] using hheld
    · simp [marked, raised]
    · simp [marked, raised]
    · simp [marked, raised]

section Leaves

variable (h : s.SoundFor R) {key : Key} {current : R}
include h

theorem find?_patch_of_ne {base : R} (mutated : R) (hne : key ≠ Resource.key base) :
    (s.patch base mutated).store.find? R key = s.find? R key := by
  obtain ⟨e, hp⟩ | ⟨current, -, hkey, ⟨-, hp⟩ |
    ⟨next, changed, rfl, -, -, -, ⟨-, -, hp⟩ | ⟨-, hp⟩⟩⟩ :=
    patch_cases h base mutated <;> rw [hp]
  · rw [find?_drop, if_neg hne]
  · rw [find?_put, key_raised, key_merged, hkey, if_neg hne]

theorem find?_updateStatus_of_ne {o : R} (hne : key ≠ Resource.key o) :
    (s.updateStatus o).store.find? R key = s.find? R key := by
  obtain ⟨e, hp⟩ | ⟨current, hacc, ⟨-, hp⟩ | ⟨next, rfl, -, hp⟩⟩ := updateStatus_cases h o <;>
    rw [hp]
  rw [find?_put, key_raised, key_withStatus, (h.proper hacc.found).key_eq, if_neg hne]

theorem find?_patch_self {base mutated : R} (hf : s.find? R (Resource.key base) = some current)
    (hheld : (metadata mutated).finalizers ≠ []) :
    ∃ next, (s.patch base mutated).store.find? R (Resource.key base) = some next ∧
      (metadata next).uid = (metadata current).uid ∧
      (Resource.immutableSpec R = true → spec next = spec current) ∧
      (next = current ∨ (metadata next).finalizers = (metadata mutated).finalizers) := by
  obtain ⟨e, hp⟩ | ⟨found, hacc, hkey, hp⟩ := patch_cases h base mutated
  · rw [hp]
    exact ⟨current, hf, rfl, fun _ => rfl, .inl rfl⟩
  · obtain rfl := Option.some.inj (hacc.found.symm.trans hf)
    obtain ⟨-, hp⟩ | ⟨next, changed, rfl, -, hfixed, -, ⟨-, hbare, -⟩ | ⟨-, hp⟩⟩ := hp
    · rw [hp]
      exact ⟨found, hf, rfl, fun _ => rfl, .inl rfl⟩
    · exact absurd (by simpa [raised, merged, withServerFields] using hbare) hheld
    · rw [hp]
      refine ⟨raised (merged mutated found) changed, ?_, ?_, fun him => ?_, .inr ?_⟩
      · rw [find?_put, key_raised, key_merged, hkey, if_pos rfl]
      · simp [raised, merged, withServerFields]
      · simpa [raised, merged, withServerFields] using hfixed him
      · simp [raised, merged, withServerFields]

theorem find?_updateStatus_self {o : R} (hf : s.find? R (Resource.key o) = some current) :
    ∃ next, (s.updateStatus o).store.find? R (Resource.key o) = some next ∧
      (metadata next).uid = (metadata current).uid ∧ spec next = spec current ∧
      (metadata next).finalizers = (metadata current).finalizers := by
  obtain ⟨e, hp⟩ | ⟨found, hacc, hp⟩ := updateStatus_cases h o
  · rw [hp]
    exact ⟨current, hf, rfl, rfl, rfl⟩
  · obtain rfl := Option.some.inj (hacc.found.symm.trans hf)
    obtain ⟨-, hp⟩ | ⟨next, rfl, -, hp⟩ := hp
    · rw [hp]
      exact ⟨found, hf, rfl, rfl, rfl⟩
    · rw [hp]
      refine ⟨raised (withStatus found (status o)) false, ?_, ?_, ?_, ?_⟩
      · rw [find?_put, key_raised, key_withStatus, (h.proper hf).key_eq, if_pos rfl]
      · simp [raised]
      · simp [raised]
      · simp [raised]

omit current in
theorem find?_of_updateStatus {o stored : R} (ha : (s.updateStatus o).answer = .ok stored) :
    (s.updateStatus o).store.find? R (Resource.key o) = some stored := by
  obtain ⟨e, hp⟩ | ⟨found, hacc, ⟨-, hp⟩ | ⟨next, rfl, -, hp⟩⟩ := updateStatus_cases h o <;>
    rw [hp] at ha ⊢
  · simp at ha
  · obtain rfl := Except.ok.inj ha
    exact hacc.found
  · obtain rfl := Except.ok.inj ha
    rw [find?_put, key_raised, key_withStatus, (h.proper hacc.found).key_eq, if_pos rfl]

end Leaves

namespace Wrote

theorem issued_le (h : s.Wrote R t) : s.issued ≤ t.issued := by
  cases h <;> simp

theorem soundFor (h : s.Wrote R t) (hs : s.SoundFor R) : t.SoundFor R := by
  cases h with
  | same => exact hs
  | created _ proper => exact SoundFor.put (s := { s with issued := s.issued + 1 }) hs proper
  | changed _ proper => exact hs.put proper
  | removed => exact hs.drop

variable {Q : Type} [Resource Q] [Parts Q]

theorem soundFor_other (h : s.Wrote R t) (hk : kind Q ≠ kind R) (hs : s.SoundFor Q) :
    t.SoundFor Q := by
  cases h with
  | same => exact hs
  | created => exact SoundFor.put_other (s := { s with issued := s.issued + 1 }) hs hk
  | changed => exact hs.put_other hk
  | removed => exact hs.drop_other hk

omit [Parts Q] in
theorem find?_other (h : s.Wrote R t) (hk : kind Q ≠ kind R) (key : Key) :
    t.find? Q key = s.find? Q key := by
  cases h with
  | same => rfl
  | created => exact find?_put_other hk
  | changed => exact find?_put_other hk
  | removed => exact find?_drop_other hk

end Wrote

/-- What a call may make of the object of a key. -/
inductive Fate (issued issued' : Nat) : Option R → Option R → Prop
  | same (o : Option R) : Fate issued issued' o o
  | created {new : R} (uid : (metadata new).uid = Uid.nth issued') (step : issued' = issued + 1)
      (version : (metadata new).resourceVersion = 1) : Fate issued issued' none (some new)
  | changed {current next : R} (uid : (metadata next).uid = (metadata current).uid)
      (version : (metadata next).resourceVersion = (metadata current).resourceVersion + 1)
      (fixed : Resource.immutableSpec R = true → spec next = spec current) :
      Fate issued issued' (some current) (some next)
  | removed (current : R) : Fate issued issued' (some current) none

theorem Wrote.fate (h : s.Wrote R t) (key : Key) :
    Fate s.issued t.issued (s.find? R key) (t.find? R key) := by
  cases h with
  | same => exact .same _
  | created absent _ uid version =>
    rw [find?_put]
    split
    · rename_i hkey
      rw [hkey, absent]
      exact .created uid rfl version
    · exact .same _
  | changed found _ uid version fixed =>
    rw [find?_put]
    split
    · rename_i hkey
      rw [hkey, found]
      exact .changed uid version fixed
    · exact .same _
  | removed found =>
    rw [find?_drop]
    split
    · rename_i hkey
      rw [hkey, found]
      exact .removed _
    · exact .same _

end Wrote

/-- Every value of either kind is what is written of a proper object. -/
def Sound (s : Store) : Prop :=
  ∀ k : Kind, s.SoundFor k.Object

namespace Sound

theorem empty : Store.empty.Sound :=
  fun _ => soundFor_empty

theorem registration (h : s.Sound) : s.SoundFor Registration :=
  h .registration

theorem domain (h : s.Sound) : s.SoundFor Domain :=
  h .domain

theorem wrote (h : s.Sound) {k : Kind} (hw : s.Wrote k.Object t) : t.Sound := by
  intro k'
  by_cases hk : k' = k
  · subst hk
    exact hw.soundFor (h k')
  · exact hw.soundFor_other (Kind.kind_ne hk) (h k')

end Sound

end Store

/-- A call about registrations or domains. -/
inductive Request where
  | get (k : Kind) (key : Key)
  | list (k : Kind)
  | create (k : Kind) (object : k.Object)
  | patch (k : Kind) (base mutated : k.Object)
  | updateStatus (k : Kind) (object : k.Object)
  | delete (k : Kind) (key : Key)

namespace Request

variable {s : Store} {now : Time}

def kind : Request → Kind
  | get k _ | list k | create k _ | patch k _ _ | updateStatus k _ | delete k _ => k

def Answer : Request → Type
  | get k _ | create k _ | patch k _ _ | updateStatus k _ => k.Object
  | list k => List k.Object
  | delete _ _ => Unit

def call : (r : Request) → Call r.Answer
  | get k key => .get k.Object key
  | list k => .list k.Object
  | create k object => .create (R := k.Object) object
  | patch k base mutated => .patch (R := k.Object) base mutated
  | updateStatus k object => .updateStatus (R := k.Object) object
  | delete k key => .delete k.Object key

/-- The store after a request. -/
def serve (r : Request) (now : Time) (s : Store) : Store :=
  (s.perform now r.call).2

/-- What a store does with a request at a time. -/
def outcome (s : Store) (now : Time) : (r : Request) → Store.Outcome r.kind.Object r.Answer
  | get k key => ⟨s.get k.Object key, none, s⟩
  | list k => ⟨s.list k.Object, none, s⟩
  | create _ object => s.create now object
  | patch _ base mutated => s.patch base mutated
  | updateStatus _ object => s.updateStatus object
  | delete k key => s.delete k.Object key now

theorem perform_call (s : Store) (now : Time) (r : Request) :
    s.perform now r.call = ((r.outcome s now).answer, (r.outcome s now).store) := by
  cases r <;> rfl

theorem serve_eq (r : Request) (now : Time) (s : Store) :
    r.serve now s = (r.outcome s now).store := by
  rw [serve, perform_call]

theorem wrote_serve (h : s.Sound) (r : Request) (now : Time) :
    s.Wrote r.kind.Object (r.serve now s) := by
  cases r with
  | get k key => exact .same
  | list k => exact .same
  | create k object => exact Store.wrote_create s now object
  | patch k base mutated => exact Store.wrote_patch (h k) base mutated
  | updateStatus k object => exact Store.wrote_updateStatus (h k) object
  | delete k key => exact Store.wrote_delete (h k) key now

theorem sound_serve (h : s.Sound) (r : Request) (now : Time) : (r.serve now s).Sound :=
  h.wrote (r.wrote_serve h now)

theorem issued_le_serve (h : s.Sound) (r : Request) (now : Time) :
    s.issued ≤ (r.serve now s).issued :=
  (r.wrote_serve h now).issued_le

theorem fate_serve (h : s.Sound) (r : Request) (now : Time) (k : Kind) (key : Key) :
    Store.Fate s.issued (r.serve now s).issued (s.find? k.Object key)
      ((r.serve now s).find? k.Object key) := by
  by_cases hk : k = r.kind
  · subst hk
    exact (r.wrote_serve h now).fate key
  · rw [(r.wrote_serve h now).find?_other (Kind.kind_ne hk)]
    exact .same _

end Request

namespace Store

variable {s : Store}

/-- The store after a list of requests, each at its time. -/
def after (s : Store) : List (Request × Time) → Store
  | [] => s
  | (r, now) :: rest => (r.serve now s).after rest

theorem after_append (s : Store) : ∀ front back : List (Request × Time),
    s.after (front ++ back) = (s.after front).after back
  | [], _ => rfl
  | (r, now) :: front, back => after_append (r.serve now s) front back

theorem Sound.after : ∀ {s : Store}, s.Sound → ∀ requests, (s.after requests).Sound
  | _, h, [] => h
  | _, h, (r, now) :: rest => Sound.after (r.sound_serve h now) rest

/-- Requests lead from the empty store to this one. -/
def Reachable (s : Store) : Prop :=
  ∃ requests, s = empty.after requests

theorem sound_of_reachable (h : s.Reachable) : s.Sound := by
  obtain ⟨requests, rfl⟩ := h
  exact Sound.empty.after requests

end Store

end Registrar
