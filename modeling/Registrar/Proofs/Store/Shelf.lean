import Mathlib.Data.List.Sort
import Mathlib.Data.Set.List
import Registrar.Proofs.Store.Objects

/-!
# The objects of a kind in order

Entries in ascending order are determined by what is looked up in them (`Ascending.ext`). The values
of one kind stand in a store in the order of their keys, so a map from keys to objects in which each
key has the object that is written in the store lists the same objects (`list_eq_of_written`).
-/

namespace Registrar

open Resource Parts

section Entries

variable {κ α β : Type} [Ord κ]

theorem lookupEntry_map (f : α → β) (k : κ) : ∀ entries : List (κ × α),
    lookupEntry k (entries.map fun e => (e.1, f e.2)) = (lookupEntry k entries).map f
  | [] => rfl
  | (k', a) :: rest => by
    rw [List.map_cons, lookupEntry, lookupEntry, lookupEntry_map f k rest]
    split <;> rfl

theorem Ascending.map (f : α → β) {entries : List (κ × α)} (h : Ascending entries) :
    Ascending (entries.map fun e => (e.1, f e.2)) :=
  List.pairwise_map.2 h

variable [Std.TransOrd κ] [Std.LawfulEqOrd κ]

theorem Ascending.ext {as bs : List (κ × α)} (ha : Ascending as) (hb : Ascending bs)
    (h : ∀ k, lookupEntry k as = lookupEntry k bs) : as = bs := by
  have : Std.Irrefl fun a b : κ × α => compare a.1 b.1 = .lt :=
    ⟨fun a hlt => by simp [Std.compare_self] at hlt⟩
  have : Std.Antisymm fun a b : κ × α => compare a.1 b.1 = .lt :=
    ⟨fun a b hab hba => by
      rw [Std.OrientedCmp.gt_of_lt hba] at hab
      cases hab⟩
  refine ha.eq_of_mem_iff hb fun e => ⟨fun he => ?_, fun he => ?_⟩
  · exact mem_of_lookupEntry ((h e.1).symm.trans (lookupEntry_of_mem ha he))
  · exact mem_of_lookupEntry ((h e.1).trans (lookupEntry_of_mem hb he))

end Entries

namespace Store

variable {R : Type} [Resource R] {s : Store}

/-- The values of a kind with their keys. -/
def shelf (s : Store) (R : Type) [Resource R] : List (Key × Json) :=
  (s.objects.entries.filter (·.1.kind == kind R)).map fun e => (e.1.key, e.2)

theorem map_snd_shelf : (s.shelf R).map Prod.snd = s.values R := by
  rw [shelf, values, List.map_map]
  rfl

theorem compare_slot (kind : String) (key key' : Key) :
    compare (Slot.mk kind key) (Slot.mk kind key') = compare key key' := by
  change (compare kind kind).then (compare key key') = _
  rw [Std.compare_self]
  rfl

theorem ascending_shelf : Ascending (s.shelf R) := by
  refine List.pairwise_map.2 ((s.objects.ascending.filter _).imp_of_mem ?_)
  rintro ⟨⟨k, key⟩, value⟩ ⟨⟨k', key'⟩, value'⟩ he he' hlt
  obtain rfl : k = kind R := by simpa using (List.mem_filter.1 he).2
  obtain rfl : k' = kind R := by simpa using (List.mem_filter.1 he').2
  rwa [compare_slot] at hlt

theorem mem_shelf {key : Key} {value : Json} :
    (key, value) ∈ s.shelf R ↔ s.value? R key = some value := by
  refine ⟨fun h => ?_, fun h => ?_⟩
  · obtain ⟨⟨⟨k, key'⟩, value'⟩, he, heq⟩ := List.mem_map.1 h
    obtain ⟨rfl, rfl⟩ := Prod.mk.inj heq
    obtain ⟨hmem, hk⟩ := List.mem_filter.1 he
    obtain rfl : k = kind R := by simpa using hk
    exact lookupEntry_of_mem s.objects.ascending hmem
  · exact List.mem_map.2
      ⟨(slot R key, value), List.mem_filter.2 ⟨mem_of_lookupEntry h, by simp [slot]⟩, rfl⟩

theorem lookupEntry_shelf (key : Key) : lookupEntry key (s.shelf R) = s.value? R key := by
  rcases hv : s.value? R key with _ | value
  · rcases hl : lookupEntry key (s.shelf R) with _ | value
    · rfl
    · rw [mem_shelf.1 (mem_of_lookupEntry hl)] at hv
      cases hv
  · exact lookupEntry_of_mem ascending_shelf (mem_shelf.2 hv)

variable [Parts R]

theorem encode_eq_ok (o : R) : encode o = .ok (json o) := by
  rw [encode, encode_eq]
  rfl

theorem decode_eq_ok (o : R) : decode R (json o) = .ok o := by
  rw [decode, decode_json]
  rfl

theorem mapM_decode_json : ∀ os : List R, (os.map json).mapM (decode R) = .ok os
  | [] => rfl
  | o :: os => by
    rw [List.map_cons, List.mapM_cons, decode_eq_ok, mapM_decode_json os]
    rfl

/-- A store lists the objects of a map that has the objects written in the store. -/
theorem list_eq_of_written {m : SortedMap Key R}
    (h : ∀ key, s.value? R key = (m.get? key).map json) :
    s.list R = .ok (m.entries.map Prod.snd) := by
  have hshelf : s.shelf R = m.entries.map fun e => (e.1, json e.2) := by
    refine ascending_shelf.ext (m.ascending.map json) fun key => ?_
    rw [lookupEntry_shelf, lookupEntry_map, h]
    rfl
  rw [list, ← map_snd_shelf, hshelf, List.map_map]
  exact (congrArg _ (List.map_map (f := Prod.snd) (g := json)).symm).trans (mapM_decode_json _)

/-- A sound store lists its objects of a kind. -/
theorem SoundFor.list_eq_ok (h : s.SoundFor R) :
    ∃ os, s.list R = .ok os ∧ ∀ key o, s.find? R key = some o → o ∈ os := by
  have hwritten : s.values R ∈ Set.range (List.map (json : R → Json)) := by
    rw [Set.range_list_map]
    intro value hvalue
    rw [← map_snd_shelf] at hvalue
    obtain ⟨⟨key, value⟩, hmem, rfl⟩ := List.mem_map.1 hvalue
    obtain ⟨o, rfl, -⟩ := h key value (mem_shelf.1 hmem)
    exact ⟨o, rfl⟩
  obtain ⟨os, hos⟩ := hwritten
  refine ⟨os, by rw [list, ← hos, mapM_decode_json], fun key o hf => ?_⟩
  have hmem : (key, json o) ∈ s.shelf R := mem_shelf.2 (by rw [h.value?_eq, hf]; rfl)
  have hvalue : json o ∈ os.map json := by
    rw [hos, ← map_snd_shelf]
    exact List.mem_map_of_mem hmem
  obtain ⟨p, hp, hjson⟩ := List.mem_map.1 hvalue
  have hread : (.ok p : Except String R) = .ok o := by
    rw [← decode_json p, hjson, decode_json o]
  obtain rfl := Except.ok.inj hread
  exact hp

end Store

end Registrar
