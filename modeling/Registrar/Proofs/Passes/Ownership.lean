import Registrar.Proofs.Passes.Dangling
import Registrar.Proofs.Passes.Sticky
import Registrar.Proofs.Passes.Writes

/-!
# Passes forge nothing

Passes go on in any order on one store, one at a time over each key, and clients do as they please
as long as they leave the finalizer on. A registration that a pass has read with the finalizer on it
stays then, its version raised with each change (`Held`), so a status that is taken replaces the one
that was read, and the pass tells it verified only when it was. Whatever passes alone do, every
registration that is verified in the end was verified at the start (`passes_forge_nothing`).
-/

namespace Registrar

open Resource Parts Store

namespace Store

variable {R : Type} [Resource R] {marker : String} {key : Key} {reg : Registration} {s t u : Store}
  {number : Nat}

/-- Every registration that is verified was verified before, in the same incarnation. -/
def Unforged (s t : Store) : Prop :=
  ∀ key reg', t.find? Registration key = some reg' →
    Condition.holds reg'.status.conditions .verified = true →
    ∃ reg, s.find? Registration key = some reg ∧ reg.metadata.uid = reg'.metadata.uid ∧
      Condition.holds reg.status.conditions .verified = true

/-- The registration of a key stays and holds the finalizer if it did before. -/
def KeepsMark (marker : String) (key : Key) (s t : Store) : Prop :=
  ∀ reg, s.find? Registration key = some reg → reg.metadata.hasFinalizer marker = true →
    ∃ reg', t.find? Registration key = some reg' ∧ reg'.metadata.hasFinalizer marker = true

/-- A registration that was read is stored at a moment and holds the finalizer, its version raised
as often as it has changed. -/
def Held (marker : String) (reg : Registration) (number : Nat) (s : Store) : Prop :=
  ∃ current changes, s.find? Registration (Resource.key reg) = some current ∧
    current.metadata.hasFinalizer marker = true ∧ changes ≤ number ∧
    current.metadata.resourceVersion = reg.metadata.resourceVersion + UInt64.ofNat changes ∧
    (changes = 0 → current = reg)

theorem Unforged.refl (s : Store) : s.Unforged s :=
  fun _ reg' hf hholds => ⟨reg', hf, rfl, hholds⟩

theorem Unforged.trans (h : s.Unforged t) (h' : t.Unforged u) : s.Unforged u := by
  intro key reg'' hf'' hholds''
  obtain ⟨reg', hf', huid', hholds'⟩ := h' key reg'' hf'' hholds''
  obtain ⟨reg, hf, huid, hholds⟩ := h key reg' hf' hholds'
  exact ⟨reg, hf, huid.trans huid', hholds⟩

theorem Unforged.of_eq (h : ∀ key, t.find? Registration key = s.find? Registration key) :
    s.Unforged t :=
  fun key reg' hf hholds => ⟨reg', (h key).symm.trans hf, rfl, hholds⟩

theorem KeepsMark.of_eq (h : t.find? Registration key = s.find? Registration key) :
    KeepsMark marker key s t :=
  fun reg hf hmarked => ⟨reg, h.trans hf, hmarked⟩

namespace Held

theorem of_find? (number : Nat) (hf : s.find? Registration (Resource.key reg) = some reg)
    (hmarked : reg.metadata.hasFinalizer marker = true) : Held marker reg number s :=
  ⟨reg, 0, hf, hmarked, Nat.zero_le _, by simp, fun _ => rfl⟩

theorem later {i j : Nat} (h : Held marker reg number s)
    (hfate : Fate i j (s.find? Registration (Resource.key reg))
      (t.find? Registration (Resource.key reg)))
    (hmark : KeepsMark marker (Resource.key reg) s t) : Held marker reg (number + 1) t := by
  obtain ⟨current, changes, hf, hmarked, hle, hversion, hzero⟩ := h
  obtain ⟨next, hnext, hmarked'⟩ := hmark current hf hmarked
  rw [hf, hnext] at hfate
  cases hfate with
  | same => exact ⟨current, changes, hnext, hmarked', by omega, hversion, hzero⟩
  | changed _ version =>
    refine ⟨next, changes + 1, hnext, hmarked', by omega, ?_, fun h => absurd h (by omega)⟩
    rw [show next.metadata.resourceVersion = current.metadata.resourceVersion + 1 from version,
      hversion, UInt64.ofNat_add, UInt64.add_assoc]
    rfl

/-- A version that comes again is that of the registration as it was read. -/
theorem eq_of_version (h : Held marker reg number s) (hn : number < Moment.limit)
    {current : Registration} (hf : s.find? Registration (Resource.key reg) = some current)
    (hversion : reg.metadata.resourceVersion = current.metadata.resourceVersion) :
    current = reg := by
  obtain ⟨found, changes, hfound, -, hle, hraised, hzero⟩ := h
  obtain rfl : found = current := Option.some.inj (hfound.symm.trans hf)
  rw [Moment.limit] at hn
  exact hzero (eq_zero_of_raised (hversion.trans hraised) (by omega))

end Held

/-- A patch makes objects of stored ones, and their status stays. -/
theorem find?_of_patch [Parts R] (hs : s.SoundFor R) {base mutated o' : R}
    (hf : (s.patch base mutated).store.find? R key = some o') :
    ∃ o, s.find? R key = some o ∧ (metadata o).uid = (metadata o').uid ∧ status o = status o' := by
  by_cases hkey : key = Resource.key base
  · subst hkey
    obtain ⟨e, hp⟩ | ⟨current, hacc, hkey, ⟨-, hp⟩ |
      ⟨next, changed, rfl, -, -, -, ⟨-, -, hp⟩ | ⟨-, hp⟩⟩⟩ := patch_cases hs base mutated <;>
      rw [hp] at hf
    · exact ⟨o', hf, rfl, rfl⟩
    · exact ⟨o', hf, rfl, rfl⟩
    · simp at hf
    · rw [find?_put, key_raised, key_merged, hkey, if_pos rfl] at hf
      obtain rfl := Option.some.inj hf
      exact ⟨current, hacc.found, by simp [raised, merged, withServerFields],
        by simp [raised, merged]⟩
  · rw [find?_patch_of_ne hs mutated hkey] at hf
    exact ⟨o', hf, rfl, rfl⟩

end Store

namespace Request

variable {r : Request} {key : Key} {read? : Option Registration} {s : Store}

theorem find?_registration_of_domain (hs : s.Sound) (now : Time) (about : r.kind = .domain)
    (key : Key) : (r.serve now s).find? Registration key = s.find? Registration key := by
  have hw := r.wrote_serve hs now
  rw [about] at hw
  exact hw.find?_other (show Resource.kind Registration ≠ Resource.kind Domain by decide) key

namespace Within

variable {now : Time}

theorem registration_eq (h : r.Within key read?) (hs : s.Sound) {key' : Key} (hne : key' ≠ key) :
    (r.serve now s).find? Registration key' = s.find? Registration key' := by
  cases h with
  | domain about => exact find?_registration_of_domain hs now about key'
  | status o key_eq => exact find?_updateStatus_of_ne hs.registration (key_eq.symm ▸ hne)
  | finalizers base mutated key_eq =>
    exact find?_patch_of_ne hs.registration mutated (key_eq.symm ▸ hne)

/-- A pass that has read a live registration with the finalizer leaves the finalizer on it. -/
theorem keepsMark {reg : Registration} (h : r.Within key (some reg)) (hs : s.Sound)
    (marker : String) : KeepsMark marker key s (r.serve now s) := by
  cases h with
  | domain about => exact .of_eq (find?_registration_of_domain hs now about key)
  | status o key_eq =>
    subst key_eq
    intro reg hf hmarked
    obtain ⟨next, hnext, -, -, hfinalizers⟩ := find?_updateStatus_self hs.registration hf
    refine ⟨next, hnext, ?_⟩
    rwa [Metadata.hasFinalizer, show next.metadata.finalizers = reg.metadata.finalizers from
      hfinalizers]
  | finalizers _ _ _ unread => simp at unread

/-- A status is taken when it was told of what is stored, so it is verified only when that was. -/
theorem unforged {marker : String} {number : Nat} (h : r.Within key read?) (hs : s.Sound)
    (hheld : ∀ reg, read? = some reg → Resource.key reg = key ∧ Held marker reg number s)
    (hn : number < Moment.limit) : s.Unforged (r.serve now s) := by
  cases h with
  | domain about => exact .of_eq (find?_registration_of_domain hs now about)
  | status o key_eq grounded =>
    change s.Unforged (s.updateStatus o).store
    obtain ⟨e, hp⟩ | ⟨current, hacc, ⟨-, hp⟩ | ⟨next, rfl, -, hp⟩⟩ :=
      updateStatus_cases hs.registration o <;> rw [hp]
    · exact .refl s
    · exact .refl s
    · intro key' reg' hf hholds
      rw [find?_put] at hf
      split at hf
      · rename_i hkey
        obtain rfl := Option.some.inj hf
        obtain ⟨reg, hread, hversion, hverified⟩ := grounded hholds
        obtain ⟨hreg, hstored⟩ := hheld reg hread
        have hfound := hacc.found
        rw [key_eq, ← hreg] at hfound
        obtain rfl := hstored.eq_of_version hn hfound (hversion.symm.trans hacc.version_eq)
        refine ⟨current, ?_, rfl, hverified⟩
        rw [hkey, key_raised, key_withStatus, hfound]
      · exact ⟨reg', hf, rfl, hholds⟩
  | finalizers base mutated =>
    intro key' reg' hf hholds
    obtain ⟨reg, hreg, huid, hstatus⟩ := find?_of_patch hs.registration hf
    refine ⟨reg, hreg, huid, ?_⟩
    rwa [show reg.status = reg'.status from hstatus]

end Within

end Request

namespace Reconciler

variable {rec : Reconciler} {key : Key} {number : Nat} {s t : Store}
  {p : Program (Except PassError Outcome)}

/-- A pass is yet to read its registration, or keeps to what it has read, and that is still held. -/
def Underway (rec : Reconciler) (key : Key) (number : Nat) (s : Store)
    (p : Program (Except PassError Outcome)) : Prop :=
  p = (rec.reconcile key).run ∨ ∃ read? post, p.KeepsTo (Request.Within key read?) post ∧
    ∀ reg, read? = some reg → Resource.key reg = key ∧ Held rec.finalizer reg number s

theorem held_of_bound? {reg : Registration} (number : Nat)
    (hf : s.find? Registration (Resource.key reg) = some reg) :
    ∀ reg', rec.bound? reg = some reg' →
      Resource.key reg' = Resource.key reg ∧ Held rec.finalizer reg' number s := by
  intro reg' hread
  rw [bound?, Option.ite_none_right_eq_some] at hread
  obtain ⟨hbound, hread⟩ := hread
  obtain rfl := Option.some.inj hread
  simp only [Bool.and_eq_true] at hbound
  exact ⟨rfl, .of_find? number hf hbound.2⟩

namespace Underway

variable {β : Type} {c : Call β} {next : Except StoreError β → Program (Except PassError Outcome)}

/-- A pass goes on when others leave the finalizer on its registration. -/
theorem later {i j : Nat} (h : rec.Underway key number s p)
    (hfate : Fate i j (s.find? Registration key) (t.find? Registration key))
    (hmark : KeepsMark rec.finalizer key s t) : rec.Underway key (number + 1) t p := by
  obtain rfl | ⟨read?, post, hkeeps, hheld⟩ := h
  · exact .inl rfl
  · refine .inr ⟨read?, post, hkeeps, fun reg hread => ?_⟩
    obtain ⟨rfl, hstored⟩ := hheld reg hread
    exact ⟨rfl, hstored.later hfate hmark⟩

theorem idle (h : rec.Underway key number s p) : rec.Underway key (number + 1) s p :=
  h.later (i := 0) (j := 0) (.same _) (.of_eq rfl)

theorem fail (h : rec.Underway key number s (.call c next)) (e : StoreError) :
    rec.Underway key (number + 1) s (next (.error e)) := by
  obtain hfresh | ⟨read?, post, ⟨-, -, hfails⟩, hheld⟩ := h
  · obtain ⟨follow, hrun, hfails, -⟩ := keepsTo_reconcile rec key
    rw [hrun] at hfresh
    cases hfresh
    exact .inr ⟨none, _, hfails e, by simp⟩
  · exact idle (.inr ⟨read?, post, hfails e, hheld⟩)

theorem clock {next : Time → Program (Except PassError Outcome)}
    (h : rec.Underway key number s (.clock next)) (now : Time) :
    rec.Underway key (number + 1) s (next now) := by
  obtain hfresh | ⟨read?, post, hkeeps, hheld⟩ := h
  · obtain ⟨follow, hrun, -⟩ := keepsTo_reconcile rec key
    rw [hrun] at hfresh
    cases hfresh
  · exact idle (.inr ⟨read?, post, hkeeps now, hheld⟩)

/-- A call of a pass forges nothing and leaves the registrations of all other keys. -/
theorem perform (h : rec.Underway key number s (.call c next)) (hs : s.Sound)
    (hn : number < Moment.limit) (now : Time) :
    (s.perform now c).2.Sound ∧ s.Unforged (s.perform now c).2 ∧
    (∀ key', key' ≠ key →
      (s.perform now c).2.find? Registration key' = s.find? Registration key') ∧
    rec.Underway key (number + 1) (s.perform now c).2 (next (s.perform now c).1) := by
  obtain hfresh | ⟨read?, post, ⟨hmakes, hanswers, -⟩, hheld⟩ := h
  · obtain ⟨follow, hrun, hfails, hreads⟩ := keepsTo_reconcile rec key
    rw [hrun] at hfresh
    cases hfresh
    refine ⟨hs, .refl s, fun _ _ => rfl, .inr ?_⟩
    change ∃ read? post, Program.KeepsTo _ post (follow (s.get Registration key)).run ∧ _
    rw [hs.registration.get_eq]
    rcases hf : s.find? Registration key with _ | reg
    · exact ⟨none, _, hfails _, by simp⟩
    · obtain rfl := (hs.registration.proper hf).key_eq
      exact ⟨rec.bound? reg, _, hreads reg rfl, held_of_bound? _ hf⟩
  · cases hmakes with
    | of r hr =>
      refine ⟨r.sound_serve hs now, hr.unforged hs hheld hn, fun key' hne =>
        hr.registration_eq hs hne, .inr ⟨read?, post, hanswers s now hs, fun reg hread => ?_⟩⟩
      obtain ⟨rfl, hstored⟩ := hheld reg hread
      rw [hread] at hr
      exact ⟨rfl, hstored.later (r.fate_serve hs now .registration _) (hr.keepsMark hs _)⟩

end Underway

/-- Calls fail in any way, and clients leave the finalizer on every registration that holds it. -/
def MayRetain (rec : Reconciler) (s : Site Key (Except PassError Outcome)) : Move Key → Prop
  | .begin _ | .perform .. | .fail .. | .leave _ => True
  | .client r now => ∀ key, KeepsMark rec.finalizer key s.store (r.serve now s.store)

/-- At a moment of a run the store is sound and every pass is underway. -/
structure Upright (rec : Reconciler) (number : Nat) (s : Site Key (Except PassError Outcome)) :
    Prop where
  sound : s.store.Sound
  underway : ∀ key p, s.passes key = some p → rec.Underway key number s.store p

namespace Upright

variable {site : Site Key (Except PassError Outcome)} {move : Move Key}

theorem quiet (hs : s.Sound) : rec.Upright 0 (Site.quiet s) :=
  ⟨hs, fun _ _ hp => absurd hp (by simp [Site.quiet])⟩

theorem setPass (h : rec.Upright number site) {key : Key}
    {p : Option (Program (Except PassError Outcome))} (ht : t.Sound)
    (hothers : ∀ key', key' ≠ key →
      t.find? Registration key' = site.store.find? Registration key')
    (hp : ∀ q, p = some q → rec.Underway key (number + 1) t q) :
    rec.Upright (number + 1) ({ site with store := t }.setPass key p) where
  sound := ht
  underway key' q hq := by
    by_cases hkey : key' = key
    · subst hkey
      exact hp q (by simpa [Site.setPass] using hq)
    · have hstays := hothers key' hkey
      refine (h.underway key' q (by simpa [Site.setPass, hkey] using hq)).later (i := 0) (j := 0) ?_
        (.of_eq hstays)
      change Fate 0 0 _ (t.find? Registration key')
      rw [hstays]
      exact .same _

/-- A move of a pass forges nothing, and whoever moves, the passes that go on still keep to what
they have read. -/
theorem step (h : rec.Upright number site) (hmay : rec.MayRetain site move)
    (hn : number < Moment.limit) :
    rec.Upright (number + 1) (site.step (fun key => (rec.reconcile key).run) move) ∧
    ((∀ r now, move ≠ .client r now) →
      site.store.Unforged (site.step (fun key => (rec.reconcile key).run) move).store) := by
  have hstays : rec.Upright (number + 1) site :=
    ⟨h.sound, fun key p hp => (h.underway key p hp).idle⟩
  have hset : ∀ {key p}, (∀ q, p = some q → rec.Underway key (number + 1) site.store q) →
      rec.Upright (number + 1) (site.setPass key p) :=
    fun hp => h.setPass h.sound (fun _ _ => rfl) hp
  have hsame : site.store.Unforged site.store := .refl _
  cases move with
  | begin key =>
    simp only [Site.step]
    split
    · refine ⟨hset fun q hq => ?_, fun _ => hsame⟩
      obtain rfl := Option.some.inj hq
      exact .inl rfl
    · exact ⟨hstays, fun _ => hsame⟩
  | perform key now =>
    simp only [Site.step]
    split
    · rename_i hp
      obtain ⟨hsound, hunforged, hothers, hnext⟩ := (h.underway key _ hp).perform h.sound hn now
      refine ⟨h.setPass hsound hothers fun q hq => ?_, fun _ => hunforged⟩
      obtain rfl := Option.some.inj hq
      exact hnext
    · rename_i hp
      refine ⟨hset fun q hq => ?_, fun _ => hsame⟩
      obtain rfl := Option.some.inj hq
      exact (h.underway key _ hp).clock now
    · exact ⟨hstays, fun _ => hsame⟩
    · exact ⟨hstays, fun _ => hsame⟩
  | fail key e =>
    simp only [Site.step]
    split
    · rename_i hp
      refine ⟨hset fun q hq => ?_, fun _ => hsame⟩
      obtain rfl := Option.some.inj hq
      exact (h.underway key _ hp).fail e
    · exact ⟨hstays, fun _ => hsame⟩
    · exact ⟨hstays, fun _ => hsame⟩
    · exact ⟨hstays, fun _ => hsame⟩
  | leave key => exact ⟨hset (by simp), fun _ => hsame⟩
  | client r now =>
    refine ⟨⟨r.sound_serve h.sound now, fun key p hp => ?_⟩, fun hnot => absurd rfl (hnot r now)⟩
    exact (h.underway key p hp).later (r.fate_serve h.sound now .registration key) (hmay key)

theorem run : ∀ {moves : List (Move Key)} {number : Nat}
    {site : Site Key (Except PassError Outcome)}, rec.Upright number site →
    site.Permits (fun key => (rec.reconcile key).run) rec.MayRetain moves →
    number + moves.length ≤ Moment.limit →
    rec.Upright (number + moves.length) (site.run (fun key => (rec.reconcile key).run) moves) ∧
    ((∀ move ∈ moves, ∀ r now, move ≠ .client r now) →
      site.store.Unforged (site.run (fun key => (rec.reconcile key).run) moves).store)
  | [], _, _, h, _, _ => ⟨h, fun _ => .refl _⟩
  | move :: moves, number, site, h, hmay, hlimit => by
    rw [List.length_cons] at hlimit
    obtain ⟨hstep, hforges⟩ := h.step hmay.1 (by omega)
    obtain ⟨hrun, hrest⟩ := run hstep hmay.2 (by omega)
    rw [List.length_cons, Nat.add_comm moves.length, ← Nat.add_assoc]
    exact ⟨hrun, fun hpasses => (hforges (hpasses move List.mem_cons_self)).trans
      (hrest fun later hlater => hpasses later (List.mem_cons_of_mem move hlater))⟩

end Upright

theorem permits_of_passes (rec : Reconciler) :
    ∀ {moves : List (Move Key)} (site : Site Key (Except PassError Outcome)),
    (∀ move ∈ moves, ∀ r now, move ≠ .client r now) →
    site.Permits (fun key => (rec.reconcile key).run) rec.MayRetain moves
  | [], _, _ => trivial
  | move :: _, _, h => by
    refine ⟨?_, permits_of_passes rec _ fun later hlater => h later (List.mem_cons_of_mem _ hlater)⟩
    cases move with
    | client r now => exact absurd rfl (h _ List.mem_cons_self r now)
    | begin | perform | fail | leave => exact trivial

/-- A call of a pass leaves a registration verified only when it was verified right before, in the
same incarnation, and so whatever passes do while no client makes a request. -/
theorem passes_forge_nothing (rec : Reconciler) {store : Store} (hs : store.Reachable)
    {moves : List (Move Key)}
    (hmay : (Site.quiet store).Permits (fun key => (rec.reconcile key).run) rec.MayRetain moves)
    (short : moves.length < 2 ^ 64) :
    let site := (Site.quiet store).run (fun key => (rec.reconcile key).run) moves
    (∀ key now, site.store.Unforged
      (site.step (fun key => (rec.reconcile key).run) (.perform key now)).store) ∧
    ∀ stretch : List (Move Key), (∀ move ∈ stretch, ∀ r now, move ≠ .client r now) →
      (moves ++ stretch).length ≤ 2 ^ 64 →
      site.store.Unforged (site.run (fun key => (rec.reconcile key).run) stretch).store := by
  intro site
  have hupright := (Upright.run (Upright.quiet (sound_of_reachable hs)) hmay
    (by rw [Nat.zero_add]; exact Nat.le_of_lt short)).1
  rw [Nat.zero_add] at hupright
  refine ⟨fun key now => ?_, fun stretch hpasses hlength => ?_⟩
  · have hmay : rec.MayRetain site (.perform key now) := trivial
    exact (hupright.step hmay short).2 (by simp)
  · rw [List.length_append] at hlength
    exact (hupright.run (permits_of_passes rec _ hpasses) hlength).2 hpasses

/-- A pass binds the verified registration and is about to tell of it, and another registration has
been created since. -/
def confirming : List (Move Key) := [
  .begin (Resource.key proven),
  .perform (Resource.key proven) .epoch,
  .perform (Resource.key proven) .epoch,
  .perform (Resource.key proven) .epoch,
  .client (.create .registration (Registration.named "team" "other")) .epoch,
  .perform (Resource.key proven) .epoch,
  .perform (Resource.key proven) .epoch]

/-- The records to publish are told, and the registration stays verified. -/
theorem proven_confirmed :
    let start := fun key => (({} : Reconciler).reconcile key).run
    let site := (Site.quiet (empty.after proving)).run start confirming
    (empty.after proving).Reachable ∧
    (Site.quiet (empty.after proving)).Permits start ({} : Reconciler).MayRetain confirming ∧
    confirming.length < 2 ^ 64 ∧
    ∃ reg reg', site.store.find? Registration (Resource.key proven) = some reg ∧
      (site.step start (.perform (Resource.key proven) .epoch)).store.find? Registration
        (Resource.key proven) = some reg' ∧
      reg'.status ≠ reg.status ∧ reg.metadata.uid = reg'.metadata.uid ∧
      Condition.holds reg.status.conditions .verified = true := by
  intro start site
  have hreach : (empty.after proving).Reachable := ⟨proving, rfl⟩
  have hmay : (Site.quiet (empty.after proving)).Permits start ({} : Reconciler).MayRetain
      confirming :=
    ⟨trivial, trivial, trivial, trivial, (courteous_create _ _ _ _).1, trivial, trivial, trivial⟩
  have hshort : confirming.length < 2 ^ 64 := by decide
  have hbefore : site.store.find? Registration (Resource.key proven) = some proven := by
    decide +kernel
  have hafter : ((site.step start (.perform (Resource.key proven) .epoch)).store.find? Registration
      (Resource.key proven)).map (fun reg => (Condition.holds reg.status.conditions .verified,
        decide (reg.status = proven.status))) = some (true, false) := by
    decide +kernel
  obtain ⟨reg', hfound, htold⟩ := Option.map_eq_some_iff.1 hafter
  obtain ⟨hholds, hstatus⟩ := Prod.mk.inj htold
  obtain ⟨reg, hreg, huid, hverified⟩ := (passes_forge_nothing {} hreach hmay hshort).1
    (Resource.key proven) .epoch (Resource.key proven) reg' hfound hholds
  obtain rfl := Option.some.inj (hbefore.symm.trans hreg)
  exact ⟨hreach, hmay, hshort, proven, reg', hbefore, hfound, by simpa using hstatus, huid,
    hverified⟩

end Reconciler

end Registrar
