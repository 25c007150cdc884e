import Registrar.Proofs.Passes.Calm
import Registrar.Proofs.Store.Shelf

/-!
# Passes in any order

Two calm visits of different keys do the same to the sketch of a store in either order, and a visit
of a key after its second does nothing. So two sequences of calm visits at one time that visit every
registration twice or more lead from one store to stores that differ in the order of the domains'
lists and in the uids of new domains only (`Reconciler.alike_in_any_order`).
-/

namespace Registrar

open Resource Parts Store

/-- A domain is another one but for its uid and the order of its list. -/
structure Domain.Alike (d d' : Domain) : Prop where
  listed : d'.spec.registrations.Perm d.spec.registrations
  rest : d' = { d with
    metadata.uid := d'.metadata.uid, spec.registrations := d'.spec.registrations }

theorem Domain.alike_of_outline {d d' : Domain} (h : d'.outline = d.outline) : d.Alike d' := by
  refine ⟨Multiset.coe_eq_coe.1 (congrArg Outline.references h), ?_⟩
  exact congrArg (fun core : Domain => { core with
    metadata.uid := d'.metadata.uid, spec.registrations := d'.spec.registrations })
    (congrArg Outline.core h)

/-- Two stores that one has led to are the same, but for the order of the lists of the domains and
the uids of those that are new. -/
structure Store.Alike (s t t' : Store) : Prop where
  registrations : ∀ key, t'.find? Registration key = t.find? Registration key
  domains : ∀ key, Option.Rel Domain.Alike (t.find? Domain key) (t'.find? Domain key)
  uids : ∀ key d, s.find? Domain key = some d → ∃ e e',
    t.find? Domain key = some e ∧ t'.find? Domain key = some e' ∧
    e.metadata.uid = d.metadata.uid ∧ e'.metadata.uid = d.metadata.uid

theorem Store.Leads.alike {s t t' : Store} {S : Sketch} (h : s.Leads t S) (h' : s.Leads t' S) :
    s.Alike t t' where
  registrations key := (h'.find?_eq key).trans (h.find?_eq key).symm
  domains key := by
    have hdomain := (h'.domain_eq key).trans (h.domain_eq key).symm
    rcases hd : t.find? Domain key with _ | d <;> rcases hd' : t'.find? Domain key with _ | d' <;>
      simp [hd, hd'] at hdomain
    · exact .none
    · exact .some (Domain.alike_of_outline hdomain)
  uids key d hd := by
    obtain ⟨e, he, huid⟩ := h.uids key d hd
    obtain ⟨e', he', huid'⟩ := h'.uids key d hd
    exact ⟨e, e', he, he', huid, huid'⟩

/-- A pass over a key on which no call fails. -/
def Visit.calm (now : Time) (key : Key) : Visit :=
  ⟨key, now, fun _ => none⟩

/-- A list that has each of some elements twice or more has them twice and then some others. -/
theorem perm_of_twice {α : Type} [DecidableEq α] {as bs : List α} (hnodup : as.Nodup)
    (h : ∀ a ∈ as, 2 ≤ bs.count a) : ∃ rest, bs.Perm (as ++ as ++ rest) := by
  have hsub : List.Subperm (as ++ as) bs := by
    refine List.subperm_ext_iff.2 fun a ha => ?_
    have ha : a ∈ as := by simpa using ha
    have hone := List.nodup_iff_count_le_one.1 hnodup a
    have htwo := h a ha
    rw [List.count_append]
    omega
  obtain ⟨front, hfront, hsublist⟩ := hsub
  obtain ⟨rest, hrest⟩ := hsublist.exists_perm_append
  exact ⟨rest, hrest.trans (hfront.append_right rest)⟩

/-- The keys of the stored registrations. -/
def Store.registered (s : Store) : List Key :=
  (s.shelf Registration).map Prod.fst

theorem Store.nodup_registered (s : Store) : s.registered.Nodup := by
  refine List.pairwise_map.2 (ascending_shelf.imp fun {a b} hlt heq => ?_)
  rw [heq, Std.compare_self] at hlt
  cases hlt

theorem Store.mem_registered {s : Store} (hs : s.Sound) {key : Key} :
    key ∈ s.registered ↔ (s.find? Registration key).isSome := by
  have hvalue := hs.registration.value?_eq key
  refine ⟨fun h => ?_, fun h => ?_⟩
  · obtain ⟨⟨key', value⟩, he, rfl⟩ := List.mem_map.1 h
    rw [mem_shelf.1 he] at hvalue
    obtain ⟨reg, hf, -⟩ := Option.map_eq_some_iff.1 hvalue.symm
    rw [hf]
    rfl
  · obtain ⟨reg, hf⟩ := Option.isSome_iff_exists.1 h
    rw [hf, Option.map_some] at hvalue
    exact List.mem_map.2 ⟨_, mem_shelf.2 hvalue, rfl⟩

namespace Reconciler

variable {rec : Reconciler} {now : Time} {s : Store} {keys keys' : List Key}

/-- The store after calm visits of keys at one time. -/
def afterKeys (rec : Reconciler) (now : Time) (s : Store) (keys : List Key) : Store :=
  rec.afterAll s (keys.map (Visit.calm now))

theorem leads_afterKeys (rec : Reconciler) (now : Time) : ∀ {s : Store} (keys : List Key), s.Sound →
    s.Leads (rec.afterKeys now s keys) (keys.foldl (Sketch.visit rec now) s.sketch)
  | _, [], hs => .refl hs
  | s, key :: keys, hs => by
    have hfirst : s.Leads (rec.after s (Visit.calm now key)) (s.sketch.visit rec now key) :=
      leads_after hs fun _ => rfl
    have hrest := leads_afterKeys rec now keys hfirst.sound
    rw [hfirst.sketch_eq] at hrest
    exact hfirst.trans hrest

theorem foldl_visit_perm (rec : Reconciler) (now : Time) (h : keys.Perm keys') :
    ∀ {s : Store}, s.Sound →
      keys.foldl (Sketch.visit rec now) s.sketch = keys'.foldl (Sketch.visit rec now) s.sketch := by
  induction h with
  | nil => exact fun _ => rfl
  | cons key _ ih =>
    intro s hs
    have hfirst : s.Leads (rec.after s (Visit.calm now key)) (s.sketch.visit rec now key) :=
      leads_after hs fun _ => rfl
    rw [List.foldl_cons, List.foldl_cons, ← hfirst.sketch_eq]
    exact ih hfirst.sound
  | swap key key' rest =>
    intro s hs
    by_cases hne : key = key'
    · rw [hne]
    · have hkey := fun key reg (hf : s.find? Registration key = some reg) =>
        (hs.registration.proper hf).key_eq
      simp only [List.foldl_cons]
      rw [Sketch.visit_comm hne (hkey key) (hkey key')]
  | trans _ _ ih ih' => exact fun hs => (ih hs).trans (ih' hs)

theorem afterKeys_append (rec : Reconciler) (now : Time) (s : Store) (keys keys' : List Key) :
    rec.afterKeys now s (keys ++ keys') = rec.afterKeys now (rec.afterKeys now s keys) keys' := by
  rw [afterKeys, afterKeys, afterKeys, afterAll, afterAll, afterAll, List.map_append,
    List.foldl_append]

theorem afterKeys_of_atRest (hs : s.Sound) (h : ∀ key, rec.AtRest key s) :
    ∀ keys, rec.afterKeys now s keys = s
  | [] => rfl
  | key :: keys => by
    have hfirst : rec.after s (Visit.calm now key) = s := (h key).after_own hs fun _ => rfl
    rw [afterKeys, afterAll, List.map_cons, List.foldl_cons, hfirst]
    exact afterKeys_of_atRest hs h keys

/-- All keys twice, in any order and with any others, come to the sketch that they come to one round
after the other. -/
theorem leads_of_twice (hs : s.Sound)
    (htwice : ∀ key, (s.find? Registration key).isSome → 2 ≤ keys.count key) :
    s.Leads (rec.afterKeys now s keys)
      (rec.afterKeys now s (s.registered ++ s.registered)).sketch := by
  have hregistered : ∀ key ∈ s.registered, 2 ≤ keys.count key :=
    fun key hkey => htwice key ((mem_registered hs).1 hkey)
  obtain ⟨rest, hperm⟩ := perm_of_twice s.nodup_registered hregistered
  have hrest : ∀ key, rec.AtRest key (rec.afterKeys now s (s.registered ++ s.registered)) := by
    intro key
    refine atRest_afterAll hs (fun v hv => ?_) fun hstored => ?_
    · obtain ⟨key', -, rfl⟩ := List.mem_map.1 hv
      exact fun _ => rfl
    · have hmem := List.count_pos_iff.2 ((mem_registered hs).2 hstored)
      have hkeys : ((s.registered ++ s.registered).map (Visit.calm now)).map Visit.key
          = s.registered ++ s.registered := by
        simp [Function.comp_def, Visit.calm]
      rw [hkeys, List.count_append]
      omega
  have hrounds := leads_afterKeys rec now (s.registered ++ s.registered) hs
  have hleads := leads_afterKeys rec now keys hs
  rw [foldl_visit_perm rec now hperm hs,
    ← (leads_afterKeys rec now (s.registered ++ s.registered ++ rest) hs).sketch_eq,
    afterKeys_append, afterKeys_of_atRest hrounds.sound hrest] at hleads
  exact hleads

/-- Two sequences of calm visits at one time, with every registration visited twice or more in both,
lead to stores that are alike. -/
theorem alike_in_any_order (hs : s.Reachable)
    (htwice : ∀ key, (s.find? Registration key).isSome → 2 ≤ keys.count key)
    (htwice' : ∀ key, (s.find? Registration key).isSome → 2 ≤ keys'.count key) :
    s.Alike (rec.afterKeys now s keys) (rec.afterKeys now s keys') := by
  have hs := sound_of_reachable hs
  exact (leads_of_twice hs htwice).alike (leads_of_twice hs htwice')

/-- Two registrations of one hostname are created. -/
def newcomers : List (Request × Time) :=
  [newcomer "first", newcomer "second"]
where
  newcomer (name : String) : Request × Time :=
    (.create .registration ((Registration.named "team" name).withHostname "shared"), .epoch)

def firstThenSecond : List Key :=
  [⟨some "team", "first"⟩, ⟨some "team", "second"⟩]

theorem newcomers_alike :
    (∀ key, ((empty.after newcomers).find? Registration key).isSome →
      2 ≤ (firstThenSecond ++ firstThenSecond).count key) ∧
    (∀ key, ((empty.after newcomers).find? Registration key).isSome →
      2 ≤ (firstThenSecond ++ firstThenSecond).reverse.count key) ∧
    (empty.after newcomers).Alike
      (({} : Reconciler).afterKeys .epoch (empty.after newcomers)
        (firstThenSecond ++ firstThenSecond))
      (({} : Reconciler).afterKeys .epoch (empty.after newcomers)
        (firstThenSecond ++ firstThenSecond).reverse) := by
  have hslots : ∀ slot ∈ (empty.after newcomers).objects.entries.map Prod.fst,
      slot.kind = Resource.kind Registration →
        2 ≤ (firstThenSecond ++ firstThenSecond).count slot.key := by
    decide +kernel
  have htwice : ∀ key, ((empty.after newcomers).find? Registration key).isSome →
      2 ≤ (firstThenSecond ++ firstThenSecond).count key :=
    fun key h => hslots _ (slot_mem_of_isSome h) rfl
  have htwice' : ∀ key, ((empty.after newcomers).find? Registration key).isSome →
      2 ≤ (firstThenSecond ++ firstThenSecond).reverse.count key := by
    intro key h
    rw [List.count_reverse]
    exact htwice key h
  exact ⟨htwice, htwice', alike_in_any_order ⟨newcomers, rfl⟩ htwice htwice'⟩

example : ((({} : Reconciler).afterKeys .epoch (empty.after newcomers)
      (firstThenSecond ++ firstThenSecond).reverse).listed { name := "shared" }).map Reference.name
    = ["second", "first"] := by
  decide +kernel

end Reconciler

end Registrar
