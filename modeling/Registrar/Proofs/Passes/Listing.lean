import Registrar.Proofs.Store.Request

/-!
# Lists of references

What a domain lists is the one thing that bindings write. From one moment to a later one each
domain stays, its version raised with each change (`Follows`), so a snapshot of it with the stored
version is the stored domain (`Follows.eq_of_version`), and a patch of the list that is taken
replaces the list that was read (`patch_listing`).
-/

namespace Registrar

open Resource Parts

/-- A store, and how many moves have led there. -/
structure Moment where
  number : Nat
  store : Store

namespace Moment

/-- The next moment, with another store. -/
def next (m : Moment) (s : Store) : Moment :=
  ⟨m.number + 1, s⟩

/-- The next moment, with nothing changed. -/
def idle (m : Moment) : Moment :=
  m.next m.store

/-- How many moves there are at most. A version has 64 bits and would start over with more. -/
def limit : Nat :=
  2 ^ 64

end Moment

namespace Store

/-- What the domain of a key lists, nothing when there is none. -/
def listed (s : Store) (key : Key) : List Reference :=
  ((s.find? Domain key).map (·.spec.registrations)).getD []

variable {s t : Store} {key : Key} {d : Domain}

theorem listed_of_find? (h : s.find? Domain key = some d) :
    s.listed key = d.spec.registrations := by
  simp [listed, h]

theorem listed_of_none (h : s.find? Domain key = none) : s.listed key = [] := by
  simp [listed, h]

/-- One store is another in which the domains have stayed and list what they did. -/
def KeepsLists (s t : Store) : Prop :=
  ∀ key, t.listed key = s.listed key ∧ ((s.find? Domain key).isSome → (t.find? Domain key).isSome)

/-- A domain as it is stored with another list. -/
def relisted (d : Domain) (list : List Reference) : Domain :=
  raised { d with spec.registrations := list } true

/-- One store is another in which the domain of a key has got a new list, and perhaps is new itself.
-/
structure Relisted (s : Store) (key : Key) (list : List Reference) (t : Store) : Prop where
  wrote : s.Wrote Domain t
  listed_eq : t.listed key = list
  other : ∀ key', key' ≠ key → t.find? Domain key' = s.find? Domain key'
  kept : ∀ d, s.find? Domain key = some d → t.find? Domain key = some (relisted d list)

namespace Relisted

variable {list : List Reference} (h : s.Relisted key list t)
include h

theorem registration_eq (key' : Key) : t.find? Registration key' = s.find? Registration key' :=
  h.wrote.find?_other (by decide) key'

theorem listed_other {key' : Key} (hkey : key' ≠ key) : t.listed key' = s.listed key' := by
  rw [listed, h.other key' hkey, ← listed]

theorem stays (key' : Key) (hd : (s.find? Domain key').isSome) : (t.find? Domain key').isSome := by
  by_cases hkey : key' = key
  · obtain ⟨d, hd⟩ := Option.isSome_iff_exists.1 hd
    rw [hkey] at hd ⊢
    rw [h.kept d hd]
    rfl
  · rwa [h.other key' hkey]

end Relisted

@[simp] theorem key_relisted (d : Domain) (list : List Reference) :
    Resource.key (relisted d list) = Resource.key d :=
  key_raised _ _

/-- A patch of the list of the stored domain that is taken replaces the list. -/
theorem patch_listing (hs : s.Sound) (hd : s.find? Domain key = some d) {list : List Reference}
    (hne : list ≠ d.spec.registrations) :
    (∃ e, s.patch d { d with spec.registrations := list } = ⟨.error e, none, s⟩) ∨
    ∃ t, s.patch d { d with spec.registrations := list }
        = ⟨.ok (relisted d list), some (.applied (relisted d list)), t⟩ ∧
      s.Relisted key list t := by
  have hproper := hs.domain.proper hd
  have hmerged : merged { d with spec.registrations := list } d
      = { d with spec.registrations := list } := rfl
  obtain he | ⟨current, hacc, -, hp⟩ :=
    patch_cases hs.domain d { d with spec.registrations := list }
  · exact .inl he
  · have hfound := hacc.found
    rw [hproper.key_eq, hd] at hfound
    obtain rfl := Option.some.inj hfound
    rw [hmerged] at hp
    obtain ⟨hsame, -⟩ | ⟨next, changed, rfl, hchanged, -, -, ⟨hdel, hbare, -⟩ | ⟨-, hp⟩⟩ := hp
    · exact absurd (congrArg (fun e : Domain => e.spec.registrations) hsame) hne
    · exact absurd hbare (hproper.held hdel)
    · have hspec : spec { d with spec.registrations := list } ≠ spec d := fun he =>
        hne (congrArg Domain.Spec.registrations he)
      obtain rfl := hchanged.2 hspec
      have hw := wrote_patch hs.domain d { d with spec.registrations := list }
      rw [hp] at hw
      refine .inr ⟨_, hp, hw, ?_, fun key' hkey => ?_, fun e he => ?_⟩
      · rw [← hproper.key_eq]
        exact listed_of_find? find?_put_self
      · rw [find?_put, if_neg]
        rwa [key_raised, ← hproper.key_eq] at *
      · rw [hd] at he
        obtain rfl := Option.some.inj he
        rw [← hproper.key_eq]
        exact find?_put_self

theorem create_listing (s : Store) (now : Time) (hostname : String) (list : List Reference) :
    (∃ e, s.create now { Domain.named hostname with spec.registrations := list }
      = ⟨.error e, none, s⟩) ∨
    ∃ new t, s.create now { Domain.named hostname with spec.registrations := list }
      = ⟨.ok new, some (.applied new), t⟩ ∧ new.spec.registrations = list ∧
      s.find? Domain { name := hostname } = none ∧ s.Relisted { name := hostname } list t := by
  have hw := wrote_create s now { Domain.named hostname with spec.registrations := list }
  obtain he | ⟨new, rfl, -, habsent, hc⟩ :=
    create_cases (s := s) now { Domain.named hostname with spec.registrations := list }
  · exact .inl he
  · have hnone : s.find? Domain { name := hostname } = none := by
      change s.value? Domain { name := hostname } = none at habsent
      simp [find?, habsent]
    rw [hc] at hw
    refine .inr ⟨_, _, hc, rfl, hnone, hw, ?_, fun key' hkey => ?_, fun e he => ?_⟩
    · exact listed_of_find? find?_put_self
    · rw [find?_put, if_neg (by rwa [key_stamped])]
      rfl
    · rw [hnone] at he
      simp at he

end Store

namespace Moment

open Store

variable {l m n : Moment} {key : Key} {d d' : Domain}

/-- Each domain stays from one moment to the other, its version raised with each change. -/
structure Follows (m n : Moment) : Prop where
  number_le : m.number ≤ n.number
  domains : ∀ key d, m.store.find? Domain key = some d → ∃ d' changes,
    n.store.find? Domain key = some d' ∧ changes ≤ n.number - m.number ∧
    d'.metadata.resourceVersion = d.metadata.resourceVersion + UInt64.ofNat changes ∧
    (changes = 0 → d' = d)

namespace Follows

theorem refl (m : Moment) : m.Follows m where
  number_le := Nat.le_refl _
  domains _ d hd := ⟨d, 0, hd, Nat.zero_le _, by simp, fun _ => rfl⟩

theorem idle (m : Moment) : m.Follows m.idle where
  number_le := Nat.le_succ _
  domains _ d hd := ⟨d, 0, hd, Nat.zero_le _, by simp, fun _ => rfl⟩

theorem trans (h : l.Follows m) (h' : m.Follows n) : l.Follows n where
  number_le := Nat.le_trans h.number_le h'.number_le
  domains key d hd := by
    obtain ⟨d', i, hd', hi, hversion, hzero⟩ := h.domains key d hd
    obtain ⟨d'', j, hd'', hj, hversion', hzero'⟩ := h'.domains key d' hd'
    have hle := h.number_le
    have hle' := h'.number_le
    refine ⟨d'', i + j, hd'', by omega, ?_, fun hij => ?_⟩
    · rw [hversion', hversion, UInt64.ofNat_add, UInt64.add_assoc]
    · rw [hzero' (by omega), hzero (by omega)]

theorem of_fate {t : Store}
    (hfate : ∀ key, ∃ i j, Fate i j (m.store.find? Domain key) (t.find? Domain key))
    (hstays : ∀ key, (m.store.find? Domain key).isSome → (t.find? Domain key).isSome) :
    m.Follows (m.next t) where
  number_le := Nat.le_succ _
  domains key d hd := by
    obtain ⟨i, j, hf⟩ := hfate key
    have hs := hstays key
    rw [hd] at hf hs
    generalize hx : t.find? Domain key = stored at hf hs
    cases hf with
    | same => exact ⟨d, 0, hx, Nat.zero_le _, by simp, fun _ => rfl⟩
    | @changed _ next _ version _ =>
      exact ⟨next, 1, hx, by simp [Moment.next], version, fun h => absurd h (by decide)⟩
    | removed => simp at hs

theorem eq_of_version (h : m.Follows n) (hn : n.number < limit)
    (hd : m.store.find? Domain key = some d) (hd' : n.store.find? Domain key = some d')
    (hversion : d.metadata.resourceVersion = d'.metadata.resourceVersion) : d' = d := by
  obtain ⟨e, changes, he, hchanges, hraised, hzero⟩ := h.domains key d hd
  obtain rfl : e = d' := Option.some.inj (he.symm.trans hd')
  rw [limit] at hn
  exact hzero (eq_zero_of_raised (hversion.trans hraised) (by omega))

/-- A patch of a domain's list that is taken finds the domain as it was read. -/
theorem patch_listing (h : m.Follows n) (hn : n.number < limit) (hs : n.store.Sound)
    (hd : m.store.find? Domain key = some d) (hkey : Resource.key d = key) {list : List Reference}
    (hne : list ≠ d.spec.registrations) :
    (∃ e, n.store.patch d { d with spec.registrations := list } = ⟨.error e, none, n.store⟩) ∨
    n.store.find? Domain key = some d ∧
    ∃ s, n.store.patch d { d with spec.registrations := list }
      = ⟨.ok (relisted d list), some (.applied (relisted d list)), s⟩ ∧
      n.store.Relisted key list s := by
  obtain he | ⟨current, ⟨hf, hversion⟩, -⟩ :=
    patch_cases hs.domain d { d with spec.registrations := list }
  · exact .inl he
  · rw [hkey] at hf
    obtain rfl := h.eq_of_version hn hd hf hversion
    exact (Store.patch_listing hs hf hne).imp_right fun hp => ⟨hf, hp⟩

end Follows

end Moment

namespace Store.Relisted

open Moment

theorem follows {m : Moment} {key : Key} {list : List Reference} {t : Store}
    (h : m.store.Relisted key list t) : m.Follows (m.next t) :=
  .of_fate (fun key => ⟨_, _, h.wrote.fate key⟩) h.stays

end Store.Relisted

end Registrar
