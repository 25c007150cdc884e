import Registrar.Proofs.Store.Parts

/-!
# The objects of a store

A store is sound when each of its values is what is written of an object under its own key, one that
could have been created there and that holds a finalizer if it is deleting. In a sound store every
call reads and writes objects: what a write does is that it fails and changes nothing, or finds the
stored version it starts from, and then keeps, puts or drops one object (`create_cases`,
`patch_cases`, `updateStatus_cases`, `delete_cases`).
-/

namespace Registrar

open Resource Parts

theorem bind_eq_ok_iff {α β ε : Type} {x : Except ε α} {f : α → Except ε β} {b : β} :
    x >>= f = .ok b ↔ ∃ a, x = .ok a ∧ f a = .ok b := by
  cases x <;> simp [bind, Except.bind]

theorem exists_of_mem_mapM {α β ε : Type} {f : α → Except ε β} {b : β} :
    ∀ {as : List α} {bs : List β}, as.mapM f = .ok bs → b ∈ bs → ∃ a ∈ as, f a = .ok b
  | [], bs, h, hb => by
    obtain rfl : [] = bs := Except.ok.inj h
    simp at hb
  | a :: as, bs, h, hb => by
    rw [List.mapM_cons, bind_eq_ok_iff] at h
    obtain ⟨c, ha, h⟩ := h
    obtain ⟨cs, has, h⟩ := bind_eq_ok_iff.1 h
    obtain rfl : c :: cs = bs := Except.ok.inj h
    rcases List.mem_cons.1 hb with rfl | hb
    · exact ⟨a, List.mem_cons_self, ha⟩
    · obtain ⟨a', ha', h'⟩ := exists_of_mem_mapM has hb
      exact ⟨a', List.mem_cons_of_mem _ ha', h'⟩

namespace Store

variable {R : Type} [Resource R]

/-- The object of a key. -/
def find? (s : Store) (R : Type) [Resource R] (key : Key) : Option R :=
  (s.value? R key).bind fun value => (Resource.decode value).toOption

/-- What holds of every object stored under a key. -/
structure Proper (key : Key) (o : R) : Prop where
  key_eq : Resource.key o = key
  identity : identityFault? o = none
  held : Resource.isDeleting o → (metadata o).finalizers ≠ []

variable [Parts R]

/-- Every value of a kind is what is written of a proper object. -/
def SoundFor (s : Store) (R : Type) [Resource R] [Parts R] : Prop :=
  ∀ key value, s.value? R key = some value → ∃ o : R, value = json o ∧ Proper key o

/-- The store with an object under its key. -/
def put (s : Store) (o : R) : Store :=
  { s with objects := s.objects.insert (slot R (Resource.key o)) (json o) }

omit [Parts R] in
/-- The store without the object of a key. -/
def drop (s : Store) (R : Type) [Resource R] (key : Key) : Store :=
  { s with objects := s.objects.erase (slot R key) }

variable {s : Store} {key : Key} {o base mutated : R} {now : Time}

@[simp] theorem issued_put : (s.put o).issued = s.issued := rfl

omit [Parts R] in
@[simp] theorem issued_drop : (s.drop R key).issued = s.issued := rfl

theorem soundFor_empty : empty.SoundFor R := fun _ _ h => by simp [value?, empty] at h

section Lookup

variable {Q : Type} [Resource Q] {key' : Key}

omit [Parts R] in
theorem slot_eq_iff : slot R key = slot R key' ↔ key = key' := by
  simp [slot]

theorem value?_put : (s.put o).value? Q key
    = if slot Q key = slot R (Resource.key o) then some (json o) else s.value? Q key := by
  rw [value?, put, SortedMap.get?_insert]
  simp only [Std.compare_eq_iff_eq, value?]

omit [Parts R] in
theorem value?_drop : (s.drop R key).value? Q key'
    = if slot Q key' = slot R key then none else s.value? Q key' := by
  rw [value?, drop, SortedMap.get?_erase]
  simp only [Std.compare_eq_iff_eq, value?]

theorem find?_put : (s.put o).find? R key
    = if key = Resource.key o then some o else s.find? R key := by
  rw [find?, value?_put]
  simp only [slot_eq_iff]
  split
  · simp [decode_json, Except.toOption]
  · rfl

omit [Parts R] in
theorem find?_drop : (s.drop R key).find? R key' = if key' = key then none else s.find? R key' := by
  rw [find?, value?_drop]
  simp only [slot_eq_iff]
  split
  · rfl
  · rfl

@[simp] theorem find?_put_self : (s.put o).find? R (Resource.key o) = some o := by
  simp [find?_put]

omit [Parts R] in
@[simp] theorem find?_drop_self : (s.drop R key).find? R key = none := by
  simp [find?_drop]

theorem find?_put_other (h : kind Q ≠ kind R) : (s.put o).find? Q key = s.find? Q key := by
  rw [find?, value?_put, if_neg (by simp [slot, h]), ← find?]

omit [Parts R] in
theorem find?_drop_other (h : kind Q ≠ kind R) : (s.drop R key).find? Q key' = s.find? Q key' := by
  rw [find?, value?_drop, if_neg (by simp [slot, h]), ← find?]

end Lookup

namespace SoundFor

variable (h : s.SoundFor R)
include h

theorem value?_eq (key : Key) : s.value? R key = (s.find? R key).map json := by
  rcases hv : s.value? R key with _ | value
  · simp [find?, hv]
  · obtain ⟨o, rfl, -⟩ := h key value hv
    simp [find?, hv, decode_json, Except.toOption]

theorem proper (hf : s.find? R key = some o) : Proper key o := by
  have hv : s.value? R key = some (json o) := by rw [h.value?_eq, hf, Option.map_some]
  obtain ⟨p, hp, hproper⟩ := h key _ hv
  have hread : (.ok o : Except String R) = .ok p := by
    rw [← decode_json o, hp, decode_json p]
  obtain rfl := Except.ok.inj hread
  exact hproper

theorem put {o : R} (ho : Proper (Resource.key o) o) : (s.put o).SoundFor R := by
  intro key value hv
  rw [value?_put] at hv
  simp only [slot_eq_iff] at hv
  split at hv
  · rename_i hk
    obtain rfl := Option.some.inj hv
    exact ⟨o, rfl, hk ▸ ho⟩
  · exact h key value hv

theorem drop : (s.drop R key).SoundFor R := by
  intro key' value hv
  rw [value?_drop] at hv
  split at hv
  · exact absurd hv (by simp)
  · exact h key' value hv

theorem put_other {Q : Type} [Resource Q] [Parts Q] {p : Q} (hk : kind R ≠ kind Q) :
    (s.put p).SoundFor R := by
  intro key value hv
  rw [value?_put, if_neg (by simp [slot, hk])] at hv
  exact h key value hv

theorem drop_other {Q : Type} [Resource Q] (hk : kind R ≠ kind Q) : (s.drop Q key).SoundFor R := by
  intro key' value hv
  rw [value?_drop, if_neg (by simp [slot, hk])] at hv
  exact h key' value hv

/-! ## Reads -/

theorem get_eq (key : Key) :
    s.get R key = (s.find? R key).elim (.error (notFound R key)) .ok := by
  rw [Store.get, value, h.value?_eq]
  rcases s.find? R key with _ | o
  · rfl
  · simp [decode, decode_json, Except.mapError, bind, Except.bind]

theorem get_eq_ok (hg : s.get R key = .ok o) : s.find? R key = some o := by
  rw [h.get_eq] at hg
  rcases hf : s.find? R key with _ | p <;> simp [hf] at hg
  rw [hg]

theorem find?_of_mem_list {os : List R} (hl : s.list R = .ok os) (ho : o ∈ os) :
    s.find? R (Resource.key o) = some o := by
  obtain ⟨value, hv, hd⟩ := exists_of_mem_mapM hl ho
  obtain ⟨⟨⟨k, key⟩, value⟩, he, rfl⟩ := List.mem_map.1 hv
  obtain ⟨hm, hk⟩ := List.mem_filter.1 he
  obtain rfl : k = kind R := by simpa using hk
  have hv : s.value? R key = some value := lookupEntry_of_mem s.objects.ascending hm
  obtain ⟨p, rfl, hp⟩ := h key value hv
  obtain rfl : p = o := by simpa [decode, decode_json, Except.mapError] using hd
  rw [hp.key_eq, find?, hv]
  simp [decode_json, Except.toOption]

end SoundFor

/-! ## Writes -/

section Writes

/-- The object that a patch makes of the stored one, its versions not yet raised. -/
def merged (mutated current : R) : R :=
  withStatus (withServerFields mutated current) (status current)

/-- A write starts from this stored object. -/
structure Accepted (s : Store) (base current : R) : Prop where
  found : s.find? R (Resource.key base) = some current
  version_eq : (metadata base).resourceVersion = (metadata current).resourceVersion

theorem accepted_of_checks (h : s.SoundFor R) {value : Json} {current : R}
    (hv : s.value R (Resource.key base) = .ok value) (hd : decode R value = .ok current)
    (hc : checkVersion (Resource.key base) base current = .ok ()) :
    value = json current ∧ s.Accepted base current := by
  rw [Store.value, h.value?_eq] at hv
  rcases hf : s.find? R (Resource.key base) with _ | o
  · simp [hf] at hv
  · obtain rfl : json o = value := by simpa [hf] using hv
    obtain rfl : o = current := by simpa [decode, decode_json, Except.mapError] using hd
    refine ⟨rfl, hf, ?_⟩
    by_contra hne
    simp [checkVersion, hne] at hc

@[simp] theorem key_withStatus (o : R) (t : Status R) :
    Resource.key (withStatus o t) = Resource.key o := by
  simp [Resource.key]

@[simp] theorem key_merged (mutated current : R) :
    Resource.key (merged mutated current) = Resource.key mutated := by
  simp [Resource.key, merged, withServerFields, Metadata.key]

@[simp] theorem key_raised (o : R) (changed : Bool) :
    Resource.key (raised o changed) = Resource.key o := by
  simp [Resource.key, raised, Metadata.key]

@[simp] theorem key_stamped (o : R) (uid : String) (now : Time) :
    Resource.key (stamped o uid now) = Resource.key o := by
  simp [Resource.key, stamped, Metadata.key]

theorem create_cases (now : Time) (o : R) :
    (∃ e, s.create now o = ⟨.error e, none, s⟩) ∨
    ∃ new, new = stamped o (Uid.nth (s.issued + 1)) now ∧ identityFault? o = none ∧
      s.value? R (Resource.key o) = none ∧
      s.create now o
        = ⟨.ok new, some (.applied new), { s with issued := s.issued + 1 }.put new⟩ := by
  rw [create]
  rcases hfault : identityFault? o with _ | message
  · rcases hnone : s.value? R (Resource.key o) with _ | value
    · refine .inr ⟨_, rfl, rfl, rfl, ?_⟩
      simp [encode, encode_eq, Except.mapError, Except.map, commit, put, key_stamped]
    · exact .inl ⟨_, rfl⟩
  · exact .inl ⟨_, rfl⟩

theorem bne_spec_merged (mutated current : R) :
    ((json (merged mutated current)).member? "spec" != (json current).member? "spec") = true
      ↔ spec mutated ≠ spec current := by
  rw [bne, Bool.not_eq_true', ← Bool.not_eq_true, beq_spec_iff]
  simp [merged, withServerFields]

theorem planPatch_eq_ok (h : s.SoundFor R) {change : Change R}
    (hp : s.planPatch base mutated = .ok change) :
    ∃ current, s.Accepted base current ∧ Resource.key mutated = Resource.key base ∧
      ((merged mutated current = current ∧ change = .keep current) ∨
      ∃ changed, (changed = true ↔ spec mutated ≠ spec current) ∧
        (Resource.immutableSpec R = true → spec mutated = spec current) ∧
        merged mutated current ≠ current ∧
        settle (raised (merged mutated current) changed) = .ok change) := by
  unfold planPatch at hp
  dsimp only at hp
  split at hp
  · simp [bind, Except.bind, throw, throwThe, MonadExceptOf.throw] at hp
  · rename_i hkey
    simp only [bind_eq_ok_iff, encode, encode_eq, Except.mapError, pure, Except.pure] at hp
    obtain ⟨value, hv, current, hd, ⟨⟩, hc, _, ⟨⟩, hp⟩ := hp
    obtain ⟨rfl, hacc⟩ := accepted_of_checks h hv hd hc
    refine ⟨current, hacc, not_not.1 hkey, ?_⟩
    rw [carry_json, ← merged] at hp
    split at hp
    · rename_i hsame
      exact .inl ⟨(beq_json_iff _ _).1 hsame, (Except.ok.inj hp).symm⟩
    · rename_i hsame
      rw [beq_json_iff] at hsame
      split at hp
      · simp [bind, Except.bind, throw, throwThe, MonadExceptOf.throw] at hp
      · rename_i hspec
        simp only [Bool.and_eq_true, not_and, bne_spec_merged] at hspec
        refine .inr ⟨_, bne_spec_merged mutated current, fun him => ?_, hsame, ?_⟩
        · exact not_not.1 fun hne => hspec hne him
        · simpa [decode, decode_json, Except.mapError, bind, Except.bind] using hp

/-- What a patch does that is taken. -/
theorem patch_cases (h : s.SoundFor R) (base mutated : R) :
    (∃ e, s.patch base mutated = ⟨.error e, none, s⟩) ∨
    ∃ current, s.Accepted base current ∧ Resource.key mutated = Resource.key base ∧
      ((merged mutated current = current ∧ s.patch base mutated = ⟨.ok current, none, s⟩) ∨
      ∃ next changed, next = raised (merged mutated current) changed ∧
        (changed = true ↔ spec mutated ≠ spec current) ∧
        (Resource.immutableSpec R = true → spec mutated = spec current) ∧
        merged mutated current ≠ current ∧
        ((Resource.isDeleting next ∧ (metadata next).finalizers = [] ∧
          s.patch base mutated = ⟨.ok next, some (.deleted next), s.drop R (Resource.key base)⟩) ∨
        ((Resource.isDeleting next → (metadata next).finalizers ≠ []) ∧
          s.patch base mutated = ⟨.ok next, some (.applied next), s.put next⟩))) := by
  rw [patch]
  rcases hp : s.planPatch base mutated with e | change
  · exact .inl ⟨e, rfl⟩
  · obtain ⟨current, hacc, hkey, ⟨hsame, rfl⟩ | ⟨changed, hchanged, him, hne, hs⟩⟩ :=
      planPatch_eq_ok h hp
    · exact .inr ⟨current, hacc, hkey, .inl ⟨hsame, rfl⟩⟩
    · refine .inr ⟨current, hacc, hkey, .inr ⟨_, changed, rfl, hchanged, him, hne, ?_⟩⟩
      rw [settle] at hs
      split at hs
      · rename_i hgone
        obtain rfl := Except.ok.inj hs
        rw [Bool.and_eq_true, List.isEmpty_iff] at hgone
        exact .inl ⟨hgone.1, hgone.2, rfl⟩
      · rename_i hgone
        rw [Bool.and_eq_true, List.isEmpty_iff, not_and] at hgone
        refine .inr ⟨hgone, ?_⟩
        simp only [encode, encode_eq, Except.mapError, Except.map, Except.ok.injEq] at hs
        subst hs
        rw [commit, put, key_raised, key_merged, hkey]

theorem planStatus_eq_ok (h : s.SoundFor R) {change : Change R}
    (hp : s.planStatus o = .ok change) :
    ∃ current, s.Accepted o current ∧
      ((status o = status current ∧ change = .keep current) ∨
      ∃ next, next = raised (withStatus current (status o)) false ∧ status o ≠ status current ∧
        change = .put next (json next)) := by
  unfold planStatus at hp
  simp only [bind_eq_ok_iff, encode, encode_eq, Except.mapError, pure, Except.pure] at hp
  obtain ⟨value, hv, current, hd, ⟨⟩, hc, _, ⟨⟩, hp⟩ := hp
  obtain ⟨rfl, hacc⟩ := accepted_of_checks h hv hd hc
  refine ⟨current, hacc, ?_⟩
  have hsame : withStatus current (status o) = current ↔ status o = status current :=
    ⟨fun he => by rw [← he, status_withStatus], fun he => ext (by simp) (by simp) (by simp [he])⟩
  rw [carry_json] at hp
  split at hp
  · rename_i hkeep
    exact .inl ⟨hsame.1 ((beq_json_iff _ _).1 hkeep), (Except.ok.inj hp).symm⟩
  · rename_i hkeep
    rw [beq_json_iff, hsame] at hkeep
    refine .inr ⟨_, rfl, hkeep, ?_⟩
    simpa [decode, decode_json, Except.mapError, bind, Except.bind, eq_comm] using hp

/-- What a write of a status does that is taken. -/
theorem updateStatus_cases (h : s.SoundFor R) (o : R) :
    (∃ e, s.updateStatus o = ⟨.error e, none, s⟩) ∨
    ∃ current, s.Accepted o current ∧
      ((status o = status current ∧ s.updateStatus o = ⟨.ok current, none, s⟩) ∨
      ∃ next, next = raised (withStatus current (status o)) false ∧ status o ≠ status current ∧
        s.updateStatus o = ⟨.ok next, some (.applied next), s.put next⟩) := by
  rw [updateStatus]
  rcases hp : s.planStatus o with e | change
  · exact .inl ⟨e, rfl⟩
  · obtain ⟨current, hacc, ⟨hsame, rfl⟩ | ⟨next, rfl, hne, rfl⟩⟩ := planStatus_eq_ok h hp
    · exact .inr ⟨current, hacc, .inl ⟨hsame, rfl⟩⟩
    · refine .inr ⟨current, hacc, .inr ⟨_, rfl, hne, ?_⟩⟩
      rw [commit, put, key_raised, key_withStatus, (h.proper hacc.found).key_eq]

/-- An object marked as deleting, its version raised. -/
def marked (o : R) (now : Time) : R :=
  raised (withMetadata o { metadata o with deletionTime := some now }) false

@[simp] theorem key_marked (o : R) (now : Time) :
    Resource.key (marked o now) = Resource.key o := by
  simp [Resource.key, marked, raised, Metadata.key]

theorem planDelete_eq_ok (h : s.SoundFor R) {change : Change R}
    (hp : s.planDelete R key now = .ok change) :
    ∃ current, s.find? R key = some current ∧
      ((Resource.isDeleting current ∧ change = .keep current) ∨
      ((metadata current).finalizers = [] ∧ change = .remove current) ∨
      ((metadata current).finalizers ≠ [] ∧ ¬Resource.isDeleting current ∧
        change = .put (marked current now) (json (marked current now)))) := by
  unfold planDelete at hp
  simp only [bind_eq_ok_iff, encode, encode_eq, Except.mapError, pure, Except.pure] at hp
  obtain ⟨value, hv, current, hd, hp⟩ := hp
  rw [Store.value, h.value?_eq] at hv
  rcases hf : s.find? R key with _ | o
  · simp [hf] at hv
  · obtain rfl : json o = value := by simpa [hf] using hv
    obtain rfl : o = current := by simpa [decode, decode_json, Except.mapError] using hd
    refine ⟨o, rfl, ?_⟩
    split at hp
    · rename_i hbare
      exact .inr (.inl ⟨List.isEmpty_iff.1 hbare, (Except.ok.inj hp).symm⟩)
    · rename_i hbare
      rw [List.isEmpty_iff] at hbare
      split at hp
      · rename_i hdeleting
        exact .inl ⟨hdeleting, (Except.ok.inj hp).symm⟩
      · rename_i hdeleting
        refine .inr (.inr ⟨hbare, hdeleting, ?_⟩)
        simpa [marked, eq_comm, bind, Except.bind] using hp

/-- What a deletion does that is taken. -/
theorem delete_cases (h : s.SoundFor R) (key : Key) (now : Time) :
    (∃ e, s.delete R key now = ⟨.error e, none, s⟩) ∨
    ∃ current, s.find? R key = some current ∧
      ((Resource.isDeleting current ∧ s.delete R key now = ⟨.ok (), none, s⟩) ∨
      ((metadata current).finalizers = [] ∧
        s.delete R key now = ⟨.ok (), some (.deleted current), s.drop R key⟩) ∨
      ((metadata current).finalizers ≠ [] ∧ ¬Resource.isDeleting current ∧
        s.delete R key now
          = ⟨.ok (), some (.applied (marked current now)), s.put (marked current now)⟩)) := by
  rw [delete]
  rcases hp : s.planDelete R key now with e | change
  · exact .inl ⟨e, rfl⟩
  · obtain ⟨current, hf, ⟨hdel, rfl⟩ | ⟨hbare, rfl⟩ | ⟨hheld, hdel, rfl⟩⟩ := planDelete_eq_ok h hp
    · exact .inr ⟨current, hf, .inl ⟨hdel, rfl⟩⟩
    · exact .inr ⟨current, hf, .inr (.inl ⟨hbare, rfl⟩)⟩
    · refine .inr ⟨current, hf, .inr (.inr ⟨hheld, hdel, ?_⟩)⟩
      rw [commit, put, key_marked, (h.proper hf).key_eq]
      rfl

theorem value_of_find? (h : s.SoundFor R) {current : R} (hf : s.find? R key = some current) :
    s.value R key = .ok (json current) := by
  simp [Store.value, h.value?_eq, hf]

omit [Parts R] in
theorem checkVersion_eq {current : R} (h : s.Accepted base current) :
    checkVersion (Resource.key base) base current = .ok () := by
  simp [checkVersion, h.version_eq]

theorem isOk_create (now : Time) (hfault : identityFault? o = none)
    (hnone : s.value? R (Resource.key o) = none) : (s.create now o).answer.isOk := by
  simp [create, hfault, hnone, encode, encode_eq, Except.mapError, Except.map, commit, Except.isOk,
    Except.toBool]

theorem isOk_patch (h : s.SoundFor R) {current : R} (hacc : s.Accepted base current)
    (hkey : Resource.key mutated = Resource.key base)
    (hfixed : Resource.immutableSpec R = true → spec mutated = spec current) :
    (s.patch base mutated).answer.isOk := by
  have hspec : (((json (merged mutated current)).member? "spec" != (json current).member? "spec")
      && Resource.immutableSpec R) = false := by
    rw [Bool.and_eq_false_iff, ← Bool.not_eq_true, bne_spec_merged]
    rcases him : Resource.immutableSpec R with _ | _
    · exact .inr rfl
    · exact .inl (not_not.2 (hfixed him))
  have hplan : (s.planPatch base mutated).isOk := by
    unfold planPatch
    simp only [hkey, ne_eq, not_true, if_false, value_of_find? h hacc.found, checkVersion_eq hacc,
      decode, decode_json, encode, encode_eq, Except.mapError, bind, Except.bind, pure, Except.pure,
      carry_json, ← merged.eq_1]
    split
    · rfl
    · rw [if_neg (by simp [hspec]), settle]
      split
      · rfl
      · simp [encode, encode_eq, Except.mapError, Except.map, Except.isOk, Except.toBool]
  rw [patch]
  rcases hp : s.planPatch base mutated with e | change
  · simp [hp, Except.isOk, Except.toBool] at hplan
  · cases change <;> rfl

theorem isOk_updateStatus (h : s.SoundFor R) {current : R} (hacc : s.Accepted o current) :
    (s.updateStatus o).answer.isOk := by
  have hplan : (s.planStatus o).isOk := by
    unfold planStatus
    simp only [value_of_find? h hacc.found, checkVersion_eq hacc, decode, decode_json, encode,
      encode_eq, Except.mapError, bind, Except.bind, pure, Except.pure, carry_json]
    split
    · rfl
    · rfl
  rw [updateStatus]
  rcases hp : s.planStatus o with e | change
  · simp [hp, Except.isOk, Except.toBool] at hplan
  · cases change <;> rfl

end Writes

end Store

end Registrar
