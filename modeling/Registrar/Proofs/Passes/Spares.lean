import Registrar.Proofs.Passes.Binder

/-!
# Marked registrations and what is listed of them

A reference dangles when no registration is stored that it points to, that asks for the hostname of
the domain, and that holds the finalizer. A call spares a registration when it leaves the finalizer
and all that a reference tells of it, and what the domains list of it (`Store.Spares`); a call that
spares all of them leaves nothing dangling that was not (`NoDangling.of_spares`).
-/

namespace Registrar

open Resource Parts

namespace Store

variable {marker : String} {key : Key} {s t u : Store}

/-- The registration of a key is stored and holds the finalizer, with this uid and this spec. -/
def Marked (s : Store) (marker : String) (key : Key) (uid : String)
    (spec : Registration.Spec) : Prop :=
  ∃ reg, s.find? Registration key = some reg ∧ reg.metadata.hasFinalizer marker ∧
    reg.metadata.uid = uid ∧ reg.spec = spec

/-- What a domain lists of the registrations of a key. -/
def listedOf (s : Store) (key domainKey : Key) : List Reference :=
  (s.listed domainKey).filter fun r => r.key = key

/-- Each reference in a list points to a stored registration with the finalizer that asks for the
hostname of the domain. -/
def NoDangling (marker : String) (s : Store) : Prop :=
  ∀ domainKey r, r ∈ s.listed domainKey → ∃ reg, s.find? Registration r.key = some reg ∧
    reg.metadata.uid = r.uid ∧ Binding.domainKey reg = domainKey ∧ reg.metadata.hasFinalizer marker

/-- A marked registration of a key stays, and so does what is listed of it. -/
structure Spares (marker : String) (key : Key) (s t : Store) : Prop where
  marked : ∀ uid spec, s.Marked marker key uid spec → t.Marked marker key uid spec
  listed : ∀ domainKey, t.listedOf key domainKey = s.listedOf key domainKey

/-- One store is another in which registrations have changed, or what domains list, but not both. -/
def ChangesOne (s t : Store) : Prop :=
  (∀ key, t.find? Registration key = s.find? Registration key) ∨
  ∀ domainKey, t.listed domainKey = s.listed domainKey

namespace Spares

theorem refl (marker : String) (key : Key) (s : Store) : s.Spares marker key s :=
  ⟨fun _ _ h => h, fun _ => rfl⟩

theorem trans (h : s.Spares marker key t) (h' : t.Spares marker key u) : s.Spares marker key u where
  marked _ _ hm := h'.marked _ _ (h.marked _ _ hm)
  listed domainKey := (h'.listed domainKey).trans (h.listed domainKey)

theorem of_eq (hreg : t.find? Registration key = s.find? Registration key)
    (hlisted : ∀ domainKey, t.listedOf key domainKey = s.listedOf key domainKey) :
    s.Spares marker key t where
  marked := fun _ _ ⟨reg, hf, h⟩ => ⟨reg, hreg.trans hf, h⟩
  listed := hlisted

end Spares

theorem mem_listedOf {domainKey : Key} {r : Reference} :
    r ∈ s.listedOf key domainKey ↔ r ∈ s.listed domainKey ∧ r.key = key := by
  simp [listedOf]

theorem listedOf_congr (h : ∀ domainKey, t.listed domainKey = s.listed domainKey)
    (key domainKey : Key) :
    t.listedOf key domainKey = s.listedOf key domainKey := by
  rw [listedOf, h, ← listedOf]

theorem domainKey_congr {reg reg' : Registration} (hkey : Resource.key reg = Resource.key reg')
    (hspec : reg.spec = reg'.spec) : Binding.domainKey reg = Binding.domainKey reg' := by
  have hname : reg.metadata.name = reg'.metadata.name := congrArg Key.name hkey
  simp only [Binding.domainKey, Registration.hostname, hspec, hname]

theorem key_eq_of_sameObject {q r : Reference} (h : q.sameObject r) : q.key = r.key :=
  (Reference.sameObject_iff.1 h).1

theorem contains_listedOf (s : Store) (r : Reference) (domainKey : Key) :
    References.contains (s.listedOf r.key domainKey) r
      = References.contains (s.listed domainKey) r := by
  rw [References.contains, References.contains, listedOf, List.any_filter]
  refine List.any_congr rfl fun q => ?_
  rcases hsame : q.sameObject r with _ | _
  · simp
  · simp [key_eq_of_sameObject hsame]

namespace NoDangling

theorem empty : NoDangling marker Store.empty := by
  intro domainKey r hr
  simp [Store.listed, find?, value?, Store.empty] at hr

/-- When all references of a key are gone or all marked registrations are spared, nothing dangles.
-/
theorem of_spares (h : NoDangling marker s) (hs : s.Sound) (ht : t.Sound)
    (hspares : ∀ key, (∀ domainKey, t.listedOf key domainKey = []) ∨ s.Spares marker key t) :
    NoDangling marker t := by
  intro domainKey r hr
  have hmem : r ∈ t.listedOf r.key domainKey := mem_listedOf.2 ⟨hr, rfl⟩
  rcases hspares r.key with hnone | hspares
  · rw [hnone] at hmem
    simp at hmem
  · rw [hspares.listed] at hmem
    obtain ⟨reg, hf, huid, hhost, hmarked⟩ := h domainKey r (mem_listedOf.1 hmem).1
    obtain ⟨reg', hf', hmarked', huid', hspec'⟩ := hspares.marked _ _ ⟨reg, hf, hmarked, rfl, rfl⟩
    refine ⟨reg', hf', huid'.trans huid, ?_, hmarked'⟩
    rw [← hhost]
    refine domainKey_congr ?_ hspec'
    rw [(ht.registration.proper hf').key_eq, (hs.registration.proper hf).key_eq]

end NoDangling

theorem listed_of_wrote (h : s.Wrote Registration t) (domainKey : Key) :
    t.listed domainKey = s.listed domainKey := by
  rw [listed, h.find?_other (by decide), ← listed]

theorem spares_updateStatus (hs : s.Sound) (o : Registration) (key : Key) :
    s.Spares marker key (s.updateStatus o).store := by
  have hlisted := listedOf_congr (listed_of_wrote (wrote_updateStatus hs.registration o)) key
  by_cases hkey : key = Resource.key o
  · subst hkey
    refine ⟨fun uid spec ⟨reg, hf, hmarked, huid, hspec⟩ => ?_, hlisted⟩
    obtain ⟨next, hnext, huid', hspec', hfinalizers⟩ := find?_updateStatus_self hs.registration hf
    refine ⟨next, hnext, ?_, huid'.trans huid, hspec'.trans hspec⟩
    have hfinalizers : next.metadata.finalizers = reg.metadata.finalizers := hfinalizers
    rwa [Metadata.hasFinalizer, hfinalizers]
  · exact .of_eq (find?_updateStatus_of_ne hs.registration hkey) hlisted

theorem spares_patch_of_ne (hs : s.Sound) {base : Registration} (mutated : Registration)
    (hkey : key ≠ Resource.key base) : s.Spares marker key (s.patch base mutated).store :=
  .of_eq (find?_patch_of_ne hs.registration mutated hkey)
    (listedOf_congr (listed_of_wrote (wrote_patch hs.registration base mutated)) key)

theorem spares_patch (hs : s.Sound) (base : Registration) {mutated : Registration}
    (hmarked : mutated.metadata.hasFinalizer marker) (key : Key) :
    s.Spares marker key (s.patch base mutated).store := by
  by_cases hkey : key = Resource.key base
  · subst hkey
    refine ⟨fun uid spec ⟨reg, hf, hreg, huid, hspec⟩ => ?_,
      listedOf_congr (listed_of_wrote (wrote_patch hs.registration base mutated)) _⟩
    have hheld : (metadata mutated).finalizers ≠ [] := by
      intro hnil
      have hnil : mutated.metadata.finalizers = [] := hnil
      simp [Metadata.hasFinalizer, hnil] at hmarked
    obtain ⟨next, hnext, huid', hspec', hfinalizers⟩ := find?_patch_self hs.registration hf hheld
    refine ⟨next, hnext, ?_, huid'.trans huid, (hspec' rfl).trans hspec⟩
    rcases hfinalizers with rfl | hfinalizers
    · exact hreg
    · have hfinalizers : next.metadata.finalizers = mutated.metadata.finalizers := hfinalizers
      rwa [Metadata.hasFinalizer, hfinalizers]
  · exact spares_patch_of_ne hs mutated hkey

section Relisted

variable {domainKey : Key} {r : Reference}

theorem Relisted.spares {list : List Reference} (h : s.Relisted domainKey list t)
    (hlist : list.filter (fun r => r.key = key) = s.listedOf key domainKey) :
    s.Spares marker key t := by
  refine .of_eq (h.registration_eq key) fun domainKey' => ?_
  by_cases hkey : domainKey' = domainKey
  · rw [hkey, listedOf, h.listed_eq, hlist]
  · rw [listedOf, h.listed_other hkey, ← listedOf]

theorem filter_append (list : List Reference) (hr : r.key ≠ key) :
    (References.append list r).filter (fun r => r.key = key)
      = list.filter fun r => r.key = key := by
  rw [References.append]
  split
  · rfl
  · simp [List.filter_append, hr]

theorem filter_remove (list : List Reference) (hr : r.key ≠ key) :
    (References.remove list r).filter (fun r => r.key = key)
      = list.filter fun r => r.key = key := by
  rw [References.remove, List.filter_filter]
  refine List.filter_congr fun q _ => ?_
  by_cases hq : q.key = key
  · have hne : q.sameObject r = false := by
      by_contra hsame
      rw [Bool.not_eq_false] at hsame
      exact hr ((key_eq_of_sameObject hsame).symm.trans hq)
    simp [hq, hne]
  · simp [hq]

end Relisted

end Store

end Registrar
