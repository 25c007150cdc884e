import Registrar.Proofs.Passes.Reconcile
import Registrar.Proofs.Passes.Site

/-!
# No binding dangles

Passes over any number of registrations go on in any order on one store, one at a time over each;
they are abandoned at will, and their calls fail at will, as long as none tells that a stored
domain is not there. Clients leave finalizers and lists alone. Then every reference that a domain
lists is that of a stored registration with the finalizer (`no_dangling`). A call that fails as if
a stored domain were not there makes a pass take the finalizer off a registration that is still
listed.
-/

namespace Registrar

open Resource Parts Store

namespace Reconciler

/-- Clients leave the finalizer on every registration that holds it, and the lists of the domains as
they are, and take no domain out of the store. -/
def Courteous (marker : String) (s t : Store) : Prop :=
  (∀ key reg, s.find? Registration key = some reg → reg.metadata.hasFinalizer marker →
    ∃ reg', t.find? Registration key = some reg' ∧ reg'.metadata.hasFinalizer marker) ∧
  s.KeepsLists t

/-- Calls fail honestly and clients are courteous. -/
def May (rec : Reconciler) (s : Site Key (Except PassError Outcome)) : Move Key → Prop
  | .begin _ | .perform .. | .leave _ => True
  | .fail key e => ∀ (β : Type) (c : Call β) next, s.passes key = some (.call c next) →
      FailsHonestly c e s.store
  | .client r now => Courteous rec.finalizer s.store (r.serve now s.store)

theorem keepsLists_of_wrote {s t : Store} (h : s.Wrote Registration t) : s.KeepsLists t :=
  fun key => ⟨listed_of_wrote h key, fun hd => by rwa [h.find?_other (by decide)]⟩

theorem courteous_create (marker : String) (s : Store) (now : Time) (o : Registration) :
    Courteous marker s (Request.serve (.create .registration o) now s) := by
  refine ⟨fun key reg hf hmarked => ?_, keepsLists_of_wrote (wrote_create s now o)⟩
  change ∃ reg', (s.create now o).store.find? Registration key = some reg' ∧ _
  obtain ⟨e, hc⟩ | ⟨new, rfl, -, habsent, hc⟩ := create_cases (s := s) now o <;> rw [hc]
  · exact ⟨reg, hf, hmarked⟩
  · refine ⟨reg, ?_, hmarked⟩
    rw [find?_put, key_stamped, if_neg]
    · exact hf
    · rintro rfl
      simp [find?, habsent] at hf

theorem courteous_delete (marker : String) {s : Store} (hs : s.Sound) (key : Key) (now : Time) :
    Courteous marker s (Request.serve (.delete .registration key) now s) := by
  refine ⟨fun key' reg hf hmarked => ?_,
    keepsLists_of_wrote (wrote_delete hs.registration key now)⟩
  change ∃ reg', (s.delete Registration key now).store.find? Registration key' = some reg' ∧ _
  obtain ⟨e, hp⟩ | ⟨current, hcurrent, ⟨-, hp⟩ | ⟨hbare, hp⟩ | ⟨-, -, hp⟩⟩ :=
    delete_cases hs.registration key now <;> rw [hp]
  · exact ⟨reg, hf, hmarked⟩
  · exact ⟨reg, hf, hmarked⟩
  · refine ⟨reg, ?_, hmarked⟩
    rw [find?_drop, if_neg]
    · exact hf
    · rintro rfl
      obtain rfl := Option.some.inj (hf.symm.trans hcurrent)
      have hbare : reg.metadata.finalizers = [] := hbare
      simp [Metadata.hasFinalizer, hbare] at hmarked
  · rw [find?_put, key_marked, (hs.registration.proper hcurrent).key_eq]
    split
    · rename_i hkey
      rw [hkey] at hf
      obtain rfl := Option.some.inj (hf.symm.trans hcurrent)
      exact ⟨_, rfl, hmarked⟩
    · exact ⟨reg, hf, hmarked⟩

theorem spares_of_courteous {marker : String} {s : Store} (hs : s.Sound) (r : Request) (now : Time)
    (h : Courteous marker s (r.serve now s)) (key : Key) : s.Spares marker key (r.serve now s) where
  marked := fun uid spec ⟨reg, hf, hmarked, huid, hspec⟩ => by
    obtain ⟨reg', hf', hmarked'⟩ := h.1 key reg hf hmarked
    have hfate := r.fate_serve hs now .registration key
    change Store.Fate _ _ (s.find? Registration key)
      ((r.serve now s).find? Registration key) at hfate
    rw [hf, hf'] at hfate
    cases hfate with
    | same => exact ⟨reg, hf', hmarked, huid, hspec⟩
    | changed huid' _ hspec' =>
      exact ⟨reg', hf', hmarked', huid'.trans huid, (hspec' rfl).trans hspec⟩
  listed := listedOf_congr (fun domainKey => (h.2 domainKey).1) key

theorem regime (rec : Reconciler) : Site.Regime (fun key => (rec.reconcile key).run) rec.terms
    (fun _ _ _ => True) rec.May (fun s => s.Sound ∧ NoDangling rec.finalizer s) where
  inv_iff _ _ := Iff.rfl
  starts key m _ := meets_reconcile rec key m
  apart key key' _ _ hne h := ⟨h.1, h.2.2 key' hne.symm⟩
  clients s r now h hs := by
    have hspares := spares_of_courteous hs.1 r now h
    have hsound := r.sound_serve hs.1 now
    exact ⟨⟨hsound, hs.2.of_spares hs.1 hsound fun key => .inr (hspares key)⟩, fun key _ =>
      ⟨.of_fate (fun key => ⟨_, _, r.fate_serve hs.1 now .domain key⟩) fun key => (h.2 key).2,
        hspares key⟩⟩
  failures s key e β c next h hp := h β c next hp

/-- At a moment nothing dangles and every pass meets its terms. -/
def Sheltered (rec : Reconciler) (number : Nat) (s : Site Key (Except PassError Outcome)) : Prop :=
  Site.Kept rec.terms (fun _ _ _ => True) (fun s => s.Sound ∧ NoDangling rec.finalizer s) number s

theorem sheltered_run (rec : Reconciler) {moves : List (Move Key)}
    (hmay : (Site.quiet Store.empty).Permits (fun key => (rec.reconcile key).run) rec.May moves)
    (short : moves.length ≤ 2 ^ 64) :
    rec.Sheltered moves.length
      ((Site.quiet Store.empty).run (fun key => (rec.reconcile key).run) moves) := by
  have hstart : rec.Sheltered 0 (Site.quiet Store.empty) :=
    Site.Kept.quiet ⟨Sound.empty, NoDangling.empty⟩
  have hrun := Site.Kept.run (regime rec) hstart hmay (by rwa [Nat.zero_add])
  rwa [Nat.zero_add] at hrun

/-- A move changes registrations, or what domains list, but not both. -/
theorem changesOne_step {rec : Reconciler} {s : Site Key (Except PassError Outcome)} {number : Nat}
    (h : rec.Sheltered number s) (hlimit : number < Moment.limit) (move : Move Key) :
    s.store.ChangesOne (s.step (fun key => (rec.reconcile key).run) move).store := by
  have hsame : s.store.ChangesOne s.store := .inl fun _ => rfl
  cases move with
  | begin key =>
    simp only [Site.step]
    split <;> exact hsame
  | perform key now =>
    simp only [Site.step]
    split
    · rename_i hp
      exact (h.perform (regime rec) hp hlimit now).2.1.2.1
    · exact hsame
    · exact hsame
    · exact hsame
  | fail key e =>
    simp only [Site.step]
    split <;> exact hsame
  | leave key => exact hsame
  | client r now =>
    have hw := r.wrote_serve h.inv.1 now
    cases hk : r.kind with
    | registration =>
      rw [hk] at hw
      exact .inr (listed_of_wrote hw)
    | domain =>
      rw [hk] at hw
      exact .inl fun key =>
        hw.find?_other (by decide : Resource.kind Registration ≠ Resource.kind Domain) key

/-- At every moment of a run from the empty store each reference that a domain lists is that of a
stored registration of its hostname that holds the finalizer, and whatever comes next, no such
registration leaves the store. -/
theorem no_dangling (rec : Reconciler) {moves : List (Move Key)}
    (hmay : (Site.quiet Store.empty).Permits (fun key => (rec.reconcile key).run) rec.May moves)
    (short : moves.length < 2 ^ 64) :
    let site := (Site.quiet Store.empty).run (fun key => (rec.reconcile key).run) moves
    ∀ domainKey d r, site.store.find? Domain domainKey = some d → r ∈ d.spec.registrations →
      ∃ reg, site.store.find? Registration r.key = some reg ∧
        reg.metadata.ns? = r.ns? ∧ reg.metadata.name = r.name ∧ reg.metadata.uid = r.uid ∧
        reg.hostname = d.hostname ∧ reg.metadata.hasFinalizer rec.finalizer ∧
        ∀ move, rec.May site move → ∃ reg',
          (site.step (fun key => (rec.reconcile key).run) move).store.find? Registration r.key
            = some reg' ∧ reg'.metadata.uid = reg.metadata.uid := by
  intro site domainKey d r hd hr
  have hkept := sheltered_run rec hmay (Nat.le_of_lt short)
  have hlisted : r ∈ site.store.listed domainKey := by rwa [listed_of_find? hd]
  obtain ⟨reg, hf, huid, hhost, hmarked⟩ := hkept.inv.2 domainKey r hlisted
  have hkey := (hkept.inv.1.registration.proper hf).key_eq
  have hname : d.hostname = domainKey.name :=
    congrArg Key.name (hkept.inv.1.domain.proper hd).key_eq
  refine ⟨reg, hf, congrArg Key.ns? hkey, congrArg Key.name hkey, huid, ?_, hmarked,
    fun move hmove => ?_⟩
  · rw [hname, ← hhost]
    rfl
  · have hmoved := hkept.step (regime rec) hmove short
    rcases changesOne_step hkept short move with hreg | hlists
    · exact ⟨reg, (hreg r.key).trans hf, rfl⟩
    · obtain ⟨reg', hf', huid', -⟩ := hmoved.inv.2 domainKey r (by rwa [hlists])
      exact ⟨reg', hf', huid'.trans huid.symm⟩

/-- A registration that holds the finalizer from the start. -/
def app : Registration :=
  { Registration.named "team" "app" with metadata.finalizers := [({} : Reconciler).finalizer] }

def appKey : Key where
  ns? := some "team"
  name := "app"

/-- The domain of that registration as it is first stored. -/
def appDomain : Domain :=
  stamped { Domain.named "app" with
    spec.registrations := [Resource.reference (stamped app (Uid.nth 1) .epoch)] } (Uid.nth 2) .epoch

/-- The registration is created, and a pass that has bound it is abandoned. -/
def opening : List (Move Key) := [
  .client (.create .registration app) .epoch,
  .begin appKey,
  .perform appKey .epoch,
  .perform appKey .epoch,
  .perform appKey .epoch,
  .leave appKey]

/-- The registration is deleted, and to the next pass the domain seems not to be there. -/
def ending : List (Move Key) := [
  .client (.delete .registration appKey) .epoch,
  .begin appKey,
  .perform appKey .epoch,
  .fail appKey { cause := .notFound "Domain" { name := "app" } },
  .perform appKey .epoch,
  .perform appKey .epoch,
  .perform appKey .epoch]

theorem permits_opening :
    (Site.quiet Store.empty).Permits (fun key => (({} : Reconciler).reconcile key).run)
      ({} : Reconciler).May opening :=
  ⟨courteous_create _ _ _ _, trivial, trivial, trivial, trivial, trivial, trivial⟩

/-- After a pass that was abandoned its binding is that of a stored registration. -/
theorem app_stored_when_bound :
    (Site.quiet Store.empty).Permits (fun key => (({} : Reconciler).reconcile key).run)
      ({} : Reconciler).May opening ∧
    opening.length < 2 ^ 64 ∧
    ∃ reg, ((Site.quiet Store.empty).run (fun key => (({} : Reconciler).reconcile key).run)
        opening).store.find? Registration appKey = some reg ∧
      reg.metadata.uid = Uid.nth 1 ∧ reg.hostname = "app" ∧
      reg.metadata.hasFinalizer ({} : Reconciler).finalizer := by
  have hshort : opening.length < 2 ^ 64 := by decide
  have hdomain : ((Site.quiet Store.empty).run (fun key => (({} : Reconciler).reconcile key).run)
      opening).store.find? Domain { name := "app" } = some appDomain := by
    decide +kernel
  obtain ⟨reg, hf, -, -, huid, hhost, hmarked, -⟩ :=
    no_dangling {} permits_opening hshort { name := "app" } appDomain
      (Resource.reference (stamped app (Uid.nth 1) .epoch)) hdomain (List.mem_singleton.2 rfl)
  exact ⟨permits_opening, hshort, reg, hf, huid, hhost, hmarked⟩

/-- Calls fail in any way, and clients are courteous. -/
def MayFailAnyhow (rec : Reconciler) (s : Site Key (Except PassError Outcome)) : Move Key → Prop
  | .begin _ | .perform .. | .leave _ | .fail .. => True
  | .client r now => Courteous rec.finalizer s.store (r.serve now s.store)

/-- When calls fail in any way, a binding may come to dangle. -/
theorem dangling_when_misled :
    ¬ ∀ (rec : Reconciler) (moves : List (Move Key)),
      (Site.quiet Store.empty).Permits (fun key => (rec.reconcile key).run)
        rec.MayFailAnyhow moves →
      moves.length < 2 ^ 64 → NoDangling rec.finalizer
        ((Site.quiet Store.empty).run (fun key => (rec.reconcile key).run) moves).store := by
  intro h
  have hsound : ((Site.quiet Store.empty).run (fun key => (({} : Reconciler).reconcile key).run)
      opening).store.Sound :=
    (sheltered_run {} permits_opening (by decide)).inv.1
  have hpermits : (Site.quiet Store.empty).Permits
      (fun key => (({} : Reconciler).reconcile key).run)
      ({} : Reconciler).MayFailAnyhow (opening ++ ending) :=
    (Site.permits_append _).2
      ⟨⟨courteous_create _ _ _ _, trivial, trivial, trivial, trivial, trivial, trivial⟩,
        courteous_delete _ hsound _ _,
        trivial, trivial, trivial, trivial, trivial, trivial, trivial⟩
  have hlisted : Resource.reference (stamped app (Uid.nth 1) .epoch) ∈
      ((Site.quiet Store.empty).run (fun key => (({} : Reconciler).reconcile key).run)
        (opening ++ ending)).store.listed { name := "app" } := by
    decide +kernel
  have hgone : ((Site.quiet Store.empty).run (fun key => (({} : Reconciler).reconcile key).run)
      (opening ++ ending)).store.find? Registration appKey = none := by
    decide +kernel
  obtain ⟨reg, hf, -⟩ := h {} (opening ++ ending) hpermits (by decide) _ _ hlisted
  rw [show (Resource.reference (stamped app (Uid.nth 1) .epoch)).key = appKey from rfl, hgone] at hf
  simp at hf

end Reconciler

end Registrar
