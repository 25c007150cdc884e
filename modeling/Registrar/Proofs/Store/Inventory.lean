import Registrar.Proofs.KeyOrder
import Registrar.Proofs.Store.Life
import Registrar.Proofs.Store.Shelf
import Registrar.Proofs.Text

/-!
# What a store holds

Of the calls only a creation looks at the identity of an object, and only a patch and a deletion at
its finalizers. Still, whatever metadata the callers hand in, each entry is filed under the key of
the object it is read back as, with the counters and finalizers that such an object may have
(`Filed`), and a kind is listed entry by entry in the order of the keys (`holds_of_requests`).
-/

namespace Registrar

open Resource Parts

/-- The namespaces that the objects of a kind have. -/
def Kind.Places : Kind → Option String → Prop
  | .registration, ns? => ∃ ns, ns? = some ns ∧ ns ≠ ""
  | .domain, ns? => ns? = none

theorem exists_forall₂ {α β : Type} {P : α → β → Prop} :
    ∀ {as : List α}, (∀ a ∈ as, ∃ b, P a b) → ∃ bs, List.Forall₂ P as bs
  | [], _ => ⟨[], .nil⟩
  | a :: as, h => by
    obtain ⟨b, hb⟩ := h a List.mem_cons_self
    obtain ⟨bs, hbs⟩ := exists_forall₂ fun a' ha' => h a' (List.mem_cons_of_mem a ha')
    exact ⟨b :: bs, .cons hb hbs⟩

namespace Store

variable {s t : Store} {k : Kind} {key : Key} {n : Nat} {o : k.Object}

/-- An object has been written so many times, so many of them with another spec. The store keeps 64
bits of either number. -/
structure Counted (n : Nat) (o : k.Object) (version generation : Nat) : Prop where
  version_eq : (metadata o).resourceVersion = .ofNat version
  generation_eq : (metadata o).generation = .ofNat generation
  pos : 1 ≤ generation
  le : generation ≤ version
  version_le : version ≤ n
  fixed : immutableSpec k.Object = true → generation = 1

namespace Counted

variable {version generation : Nat}

theorem mono {m : Nat} (h : Counted n o version generation) (hle : n ≤ m) :
    Counted m o version generation :=
  { h with version_le := h.version_le.trans hle }

theorem written (h : Counted n o version generation) {next : k.Object} (changed : Bool)
    (hversion : (metadata next).resourceVersion = (metadata o).resourceVersion + 1)
    (hgeneration : (metadata next).generation
      = (metadata o).generation + if changed then 1 else 0)
    (hfixed : immutableSpec k.Object = true → changed = false) :
    Counted (n + 1) next (version + 1) (generation + if changed then 1 else 0) where
  version_eq := by rw [hversion, h.version_eq, UInt64.ofNat_add]; rfl
  generation_eq := by
    rw [hgeneration, h.generation_eq, UInt64.ofNat_add]
    cases changed <;> rfl
  pos := h.pos.trans (Nat.le_add_right _ _)
  le := by
    have hle := h.le
    split <;> omega
  version_le := Nat.succ_le_succ h.version_le
  fixed him := by rw [hfixed him, h.fixed him]; rfl

theorem bounds (h : Counted n o version generation) (hn : n < 2 ^ 64) :
    1 ≤ (metadata o).generation ∧ (metadata o).generation ≤ (metadata o).resourceVersion := by
  have hversion : version < 2 ^ 64 := h.version_le.trans_lt hn
  rw [h.version_eq, h.generation_eq, UInt64.le_iff_toNat_le, UInt64.le_iff_toNat_le,
    UInt64.toNat_ofNat', UInt64.toNat_ofNat', Nat.mod_eq_of_lt hversion,
    Nat.mod_eq_of_lt (h.le.trans_lt hversion)]
  exact ⟨h.pos, h.le⟩

end Counted

theorem Passage.counted {r : Request} {now : Time} {before behind : Option k.Object}
    (h : Passage k key r now before behind)
    (hbefore : ∀ o, before = some o → ∃ version generation, Counted n o version generation) :
    ∀ o, behind = some o → ∃ version generation, Counted (n + 1) o version generation := by
  intro o ho
  cases h with
  | idle =>
    obtain ⟨version, generation, hcount⟩ := hbefore o ho
    exact ⟨version, generation, hcount.mono (Nat.le_succ n)⟩
  | born =>
    obtain rfl := Option.some.inj ho
    exact ⟨1, 1, by simp [stamped], by simp [stamped], le_rfl, le_rfl, by omega, fun _ => rfl⟩
  | @written previous next _ _ _ version generation fixed =>
    obtain rfl := Option.some.inj ho
    obtain ⟨v, g, hcount⟩ := hbefore previous rfl
    refine ⟨_, _, hcount.written (decide (spec next ≠ spec previous)) version ?_ ?_⟩
    · rw [generation]
      by_cases hspec : spec next = spec previous <;> simp [hspec]
    · intro him
      simpa using fixed him
  | @marked previous =>
    obtain rfl := Option.some.inj ho
    obtain ⟨v, g, hcount⟩ := hbefore previous rfl
    exact ⟨_, _, hcount.written false (by simp [Store.marked, raised])
      (by simp [Store.marked, raised]) fun _ => rfl⟩
  | deleted => cases ho
  | released => cases ho

theorem counted_after : ∀ {s : Store} {n : Nat} (requests : List (Request × Time)), s.Sound →
    (∀ o, s.find? k.Object key = some o → ∃ version generation, Counted n o version generation) →
    ∀ o, (s.after requests).find? k.Object key = some o →
      ∃ version generation, Counted (n + requests.length) o version generation
  | _, _, [], _, h => h
  | s, n, (r, now) :: rest, hs, h => by
    rw [List.length_cons, ← Nat.add_assoc, Nat.add_right_comm]
    exact counted_after rest (r.sound_serve hs now) ((passage_serve hs r now k key).counted h)

/-- Every entry is of one of the two kinds. -/
def Classed (s : Store) : Prop :=
  ∀ e ∈ s.objects.entries, ∃ k : Kind, e.1.kind = kind k.Object

theorem Wrote.classed (h : s.Wrote k.Object t) (hs : s.Classed) : t.Classed := by
  have hput : ∀ {s : Store} (o : k.Object), s.Classed → (s.put o).Classed := by
    intro s o hs e he
    rcases mem_of_mem_insertEntry he with rfl | he
    · exact ⟨k, rfl⟩
    · exact hs e he
  cases h with
  | same => exact hs
  | created => exact hput (s := { s with issued := s.issued + 1 }) _ hs
  | changed => exact hput _ hs
  | removed => exact fun e he => hs e (List.mem_of_mem_filter he)

theorem classed_after : ∀ {s : Store} (requests : List (Request × Time)), s.Sound → s.Classed →
    (s.after requests).Classed
  | _, [], _, h => h
  | _, (r, now) :: rest, hs, h =>
    classed_after rest (r.sound_serve hs now) ((r.wrote_serve hs now).classed h)

/-- The entries of a kind. -/
def entriesOf (s : Store) (k : Kind) : List (Slot × Json) :=
  s.objects.entries.filter (·.1.kind == kind k.Object)

/-- An entry is filed after `n` requests as what is written of an object. -/
structure Filed (n : Nat) (k : Kind) (entry : Slot × Json) (o : k.Object) : Prop where
  slot_eq : entry.1 = slot k.Object (Resource.key o)
  decode_eq : decode k.Object entry.2 = .ok o
  encode_eq : encode o = .ok entry.2
  named : ∃ c ∈ (metadata o).name.toList, ¬Text.isBlank c
  placed : k.Places (metadata o).ns?
  held : Resource.isDeleting o → (metadata o).finalizers ≠ []
  counted : ∃ version generation, Counted n o version generation
  bounds : n < 2 ^ 64 →
    1 ≤ (metadata o).generation ∧ (metadata o).generation ≤ (metadata o).resourceVersion
  fixed : k = .registration → (metadata o).generation = 1

theorem named_of_identity (h : identityFault? o = none) :
    (∃ c ∈ (metadata o).name.toList, ¬Text.isBlank c) ∧ k.Places (metadata o).ns? := by
  unfold identityFault? at h
  dsimp only at h
  split_ifs at h with hname hplaced hfree
  rw [Text.trim_eq_empty_iff] at hname
  push Not at hname
  refine ⟨hname, ?_⟩
  cases k with
  | registration =>
    rcases hns : (metadata o).ns? with _ | ns
    · simp [hns, namespaced] at hplaced
    · exact ⟨ns, rfl, by simpa [hns, namespaced] using hplaced⟩
  | domain =>
    show (metadata o).ns? = none
    simpa [namespaced] using hfree

theorem filed_of_mem (hs : s.Sound)
    (hcount : ∀ key (o : k.Object), s.find? k.Object key = some o →
      ∃ version generation, Counted n o version generation)
    {entry : Slot × Json} (he : entry ∈ s.entriesOf k) : ∃ o, Filed n k entry o := by
  obtain ⟨⟨kind', key⟩, value⟩ := entry
  obtain ⟨hmem, hkind⟩ := List.mem_filter.1 he
  obtain rfl : kind' = kind k.Object := by simpa using hkind
  have hvalue : s.value? k.Object key = some value := lookupEntry_of_mem s.objects.ascending hmem
  obtain ⟨o, rfl, hproper⟩ := hs k key value hvalue
  have hfound : s.find? k.Object key = some o := by
    rw [find?, hvalue]
    simp [decode_json, Except.toOption]
  obtain ⟨hnamed, hplaced⟩ := named_of_identity hproper.identity
  obtain ⟨version, generation, hcounts⟩ := hcount key o hfound
  refine ⟨o, by rw [hproper.key_eq, slot], decode_eq_ok o, encode_eq_ok o, hnamed, hplaced,
    hproper.held, ⟨version, generation, hcounts⟩, hcounts.bounds, ?_⟩
  rintro rfl
  rw [hcounts.generation_eq, hcounts.fixed rfl]
  rfl

/-- After `n` requests a store holds these objects of a kind. -/
structure Holds (n : Nat) (s : Store) (k : Kind) (os : List k.Object) : Prop where
  filed : List.Forall₂ (Filed n k) (s.entriesOf k) os
  list_eq : s.list k.Object = .ok os
  ordered : os.Pairwise fun o p => (Resource.key o).Before (Resource.key p)
  get_eq : ∀ key, s.get k.Object key
    = (os.find? (Resource.key · = key)).elim (.error (notFound k.Object key)) .ok

theorem shelf_eq_of_filed {entries : List (Slot × Json)} {os : List k.Object}
    (h : List.Forall₂ (Filed n k) entries os) :
    entries.map (fun e => (e.1.key, e.2)) = os.map fun o => (Resource.key o, json o) := by
  induction h with
  | nil => rfl
  | cons hfiled _ ih =>
    rw [List.map_cons, List.map_cons, ih, hfiled.slot_eq]
    have hvalue := hfiled.encode_eq
    rw [encode_eq_ok] at hvalue
    rw [Except.ok.inj hvalue]
    rfl

theorem Sound.holds (hs : s.Sound) {os : List k.Object}
    (hfiled : List.Forall₂ (Filed n k) (s.entriesOf k) os) : Holds n s k os := by
  have hshelf : s.shelf k.Object = os.map fun o => (Resource.key o, json o) :=
    shelf_eq_of_filed hfiled
  have hlist : s.list k.Object = .ok os := by
    rw [list, ← map_snd_shelf, hshelf, List.map_map]
    exact mapM_decode_json os
  have hordered : os.Pairwise fun o p => (Resource.key o).Before (Resource.key p) := by
    have hascending := ascending_shelf (s := s) (R := k.Object)
    rw [hshelf] at hascending
    exact (List.pairwise_map.1 hascending).imp Key.before_of_compare
  refine ⟨hfiled, hlist, hordered, fun key => ?_⟩
  rw [(hs k).get_eq]
  congr 1
  rcases hfind : os.find? (Resource.key · = key) with _ | o
  · rcases hf : s.find? k.Object key with _ | o
    · rfl
    · obtain ⟨os', hlist', hmem⟩ := (hs k).list_eq_ok
      obtain rfl : os' = os := Except.ok.inj (hlist'.symm.trans hlist)
      have hother := List.find?_eq_none.1 hfind o (hmem key o hf)
      exact absurd ((hs k).proper hf).key_eq (by simpa using hother)
  · obtain rfl : Resource.key o = key := by simpa using List.find?_some hfind
    exact (hs k).find?_of_mem_list hlist (List.mem_of_find?_eq_some hfind)

/-- Whatever was asked of a store, it holds objects of the two kinds only, filed as they should be,
and these are what it lists and gets. -/
theorem holds_of_requests (requests : List (Request × Time)) :
    (∀ entry ∈ (empty.after requests).objects.entries,
      ∃ k, entry ∈ (empty.after requests).entriesOf k) ∧
    ∀ k, ∃ os, Holds requests.length (empty.after requests) k os := by
  have hs : (empty.after requests).Sound := Sound.empty.after requests
  refine ⟨fun entry he => ?_, fun k => ?_⟩
  · obtain ⟨k, hk⟩ := classed_after requests Sound.empty (fun e he => nomatch he) entry he
    exact ⟨k, List.mem_filter.2 ⟨he, by simpa using hk⟩⟩
  · have hcount : ∀ key (o : k.Object), (empty.after requests).find? k.Object key = some o →
        ∃ version generation, Counted requests.length o version generation := by
      intro key o hf
      have hcounts := counted_after (n := 0) requests Sound.empty
        (fun o ho => by simp [find?, value?, empty] at ho) o hf
      rwa [Nat.zero_add] at hcounts
    obtain ⟨os, hfiled⟩ := exists_forall₂ fun entry he => filed_of_mem hs hcount he
    exact ⟨os, hs.holds hfiled⟩

example : ((empty.create .epoch { metadata := {
      name := "app", ns? := some "web", resourceVersion := 7, deletionTime := some .epoch } :
      Registration }).store.list Registration).toOption.map
        (·.map fun r => (r.metadata.resourceVersion, r.metadata.deletionTime))
    = some [(1, none)] := by
  decide +kernel

end Store

end Registrar
