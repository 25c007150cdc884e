import Registrar.Proofs.First
import Registrar.Proofs.Store.Request
import Registrar.Seed

/-!
# Seeding

The objects of a manifest are created one after another. Each is new, or is left alone because its
key is taken, or is the last: no store creates it, whatever it keeps (`Sowing`). So the first object
of each free slot is in the store afterwards and nothing else has changed (`Sown`), and a manifest
that went in once finds all its keys taken the next time (`Sowing.eq_of_present`).
-/

namespace Registrar

open Resource Parts Store

/-- A store, and what its clock shows at each of the next calls. -/
structure Timed where
  store : Store
  clock : Nat → Time

namespace Timed

def access : Access Timed where
  perform c w :=
    let (answer, store) := w.store.perform (w.clock 0) c
    (answer, ⟨store, fun n => w.clock (n + 1)⟩)
  now w := w.clock 0

end Timed

/-- An object of a manifest. -/
structure Seed where
  kind : Kind
  object : kind.Object

namespace Seed

def key (x : Seed) : Key :=
  Resource.key x.object

def slot (x : Seed) : Slot :=
  Store.slot x.kind.Object x.key

/-- The object that a store keeps under the key. -/
def found? (x : Seed) (s : Store) : Option x.kind.Object :=
  s.find? x.kind.Object x.key

/-- The object is not created, and not because there is one. -/
def Refused (x : Seed) (s : Store) (now : Time) (e : StoreError) : Prop :=
  (s.create now x.object).answer = .error e ∧ ∀ kind key, e.cause ≠ .alreadyExists kind key

/-- An object is what a store makes of a new one. -/
structure Grown (x : Seed) (o : x.kind.Object) : Prop where
  spec_eq : spec o = spec x.object
  status_eq : status o = status x.object
  finalizers_eq : (metadata o).finalizers = (metadata x.object).finalizers

end Seed

/-- The objects of a manifest, domains first. -/
def Manifest.seeds (m : Manifest) : List Seed :=
  m.domains.map (⟨.domain, ·⟩) ++ m.registrations.map (⟨.registration, ·⟩)

namespace Store

section Create

variable {R : Type} [Resource R] {s : Store} {now : Time} {o : R} {e : StoreError}

/-- Why no store creates an object. -/
def refusal? (o : R) : Option StoreError :=
  (identityFault? o).map fun message =>
    { cause := .internal message
      context := some s!"Creating {Resource.kind R} '{Resource.key o}'" }

theorem create_of_refusal (h : refusal? o = some e) : s.create now o = ⟨.error e, none, s⟩ := by
  obtain ⟨message, hfault, rfl⟩ := Option.map_eq_some_iff.1 h
  rw [create, hfault]
  rfl

theorem create_of_taken (h : refusal? o = none) {value : Json}
    (hv : s.value? R (Resource.key o) = some value) :
    s.create now o
      = ⟨.error { cause := .alreadyExists (Resource.kind R) (Resource.key o) }, none, s⟩ := by
  rw [create, Option.map_eq_none_iff.1 h]
  dsimp only
  rw [hv]
  rfl

/-- The store with a new object. -/
def grow [Parts R] (s : Store) (now : Time) (o : R) : Store :=
  { s with issued := s.issued + 1 }.put (stamped o (Uid.nth (s.issued + 1)) now)

theorem create_of_free [Parts R] (h : refusal? o = none)
    (hv : s.value? R (Resource.key o) = none) :
    s.create now o = ⟨.ok (stamped o (Uid.nth (s.issued + 1)) now),
      some (.applied (stamped o (Uid.nth (s.issued + 1)) now)), s.grow now o⟩ := by
  rw [create, Option.map_eq_none_iff.1 h]
  dsimp only
  rw [hv]
  simp [encode, encode_eq, Except.mapError, Except.map, commit, grow, put, key_stamped]

theorem cause_of_refusal (h : refusal? o = some e) (kind : String) (key : Key) :
    e.cause ≠ .alreadyExists kind key := by
  obtain ⟨message, -, rfl⟩ := Option.map_eq_some_iff.1 h
  exact StoreError.Cause.noConfusion

end Create

end Store

namespace Seed

variable {x : Seed} {s t : Store} {now : Time}

theorem refused_of_refusal {e : StoreError} (h : refusal? x.object = some e) :
    x.Refused s now e :=
  ⟨congrArg Outcome.answer (create_of_refusal h), cause_of_refusal h⟩

theorem not_refused (h : refusal? x.object = none) (e : StoreError) : ¬x.Refused s now e := by
  rintro ⟨hanswer, hcause⟩
  rcases hv : s.value? x.kind.Object (Resource.key x.object) with _ | value
  · rw [create_of_free h hv] at hanswer
    cases hanswer
  · rw [create_of_taken h hv] at hanswer
    obtain rfl := Except.error.inj hanswer
    exact hcause _ _ rfl

/-- The store with a new object. -/
def grown (x : Seed) (s : Store) (now : Time) : Store :=
  s.grow now x.object

theorem get?_grown (slot : Slot) : (x.grown s now).objects.get? slot
    = if slot = x.slot then some (json (stamped x.object (Uid.nth (s.issued + 1)) now))
      else s.objects.get? slot := by
  rw [grown, grow, put, SortedMap.get?_insert, key_stamped]
  simp only [Std.compare_eq_iff_eq]
  rfl

theorem found?_grown_self (x : Seed) (s : Store) (now : Time) :
    ∃ o, x.found? (x.grown s now) = some o ∧ x.Grown o := by
  refine ⟨stamped x.object (Uid.nth (s.issued + 1)) now, ?_, ?_⟩
  · rw [found?, key, grown, grow, ← key_stamped x.object _ now, find?_put_self]
  · exact ⟨by simp [stamped], by simp [stamped], by simp [stamped]⟩

theorem found?_congr (h : t.objects.get? x.slot = s.objects.get? x.slot) :
    x.found? t = x.found? s := by
  rw [found?, find?, value?, found?, find?, value?]
  exact congrArg (Option.bind · _) h

end Seed

/-- What creating objects in order comes to: how many are new, the store after it, and what was
refused. -/
inductive Sowing : Store → List Seed → Nat → Store → Option SeedError → Prop
  | done (s : Store) : Sowing s [] 0 s none
  | refused {s : Store} {x : Seed} {rest : List Seed} {e : StoreError}
      (why : refusal? x.object = some e) :
      Sowing s (x :: rest) 0 s (some ⟨Resource.kind x.kind.Object, x.key, e⟩)
  | present {s t : Store} {x : Seed} {rest : List Seed} {n : Nat} {failure : Option SeedError}
      {o : x.kind.Object} (fit : refusal? x.object = none) (there : x.found? s = some o)
      (next : Sowing s rest n t failure) : Sowing s (x :: rest) n t failure
  | new {s t : Store} {x : Seed} {rest : List Seed} {n : Nat} {failure : Option SeedError}
      {now : Time} (fit : refusal? x.object = none) (free : s.objects.get? x.slot = none)
      (next : Sowing (x.grown s now) rest n t failure) : Sowing s (x :: rest) (n + 1) t failure

namespace Sowing

variable {s t u : Store} {seeds more : List Seed} {n k : Nat} {e : SeedError}
  {failure : Option SeedError}

theorem append (h : Sowing s seeds n t none) (h' : Sowing t more k u failure) :
    Sowing s (seeds ++ more) (n + k) u failure := by
  generalize hnone : none = f at h
  induction h with
  | done s => rwa [Nat.zero_add]
  | refused => cases hnone
  | present fit there _ ih => exact .present fit there (ih h' hnone)
  | new fit free _ ih =>
    rw [Nat.add_right_comm]
    exact .new fit free (ih h' hnone)

theorem append_of_refused (h : Sowing s seeds n t (some e)) (more : List Seed) :
    Sowing s (seeds ++ more) n t (some e) := by
  generalize hsome : some e = f at h
  induction h with
  | done => cases hsome
  | refused why => exact .refused why
  | present fit there _ ih => exact .present fit there (ih hsome)
  | new fit free _ ih => exact .new fit free (ih hsome)

/-- What is refused comes after objects that all went in. -/
theorem split (h : Sowing s seeds n t (some e)) : ∃ front bad back,
    seeds = front ++ bad :: back ∧ Sowing s front n t none ∧
    e.kind = Resource.kind bad.kind.Object ∧ e.key = bad.key ∧
    refusal? bad.object = some e.source := by
  generalize hsome : some e = f at h
  induction h with
  | done => cases hsome
  | @refused s x rest _ why =>
    obtain rfl := Option.some.inj hsome
    exact ⟨[], x, rest, rfl, .done s, rfl, rfl, why⟩
  | @present _ _ x _ _ _ _ fit there _ ih =>
    obtain ⟨front, bad, back, rfl, hfront, hbad⟩ := ih hsome
    exact ⟨x :: front, bad, back, rfl, .present fit there hfront, hbad⟩
  | @new _ _ x _ _ _ _ fit free _ ih =>
    obtain ⟨front, bad, back, rfl, hfront, hbad⟩ := ih hsome
    exact ⟨x :: front, bad, back, rfl, .new fit free hfront, hbad⟩

theorem fit (h : Sowing s seeds n t none) : ∀ x ∈ seeds, refusal? x.object = none := by
  generalize hnone : none = f at h
  induction h with
  | done => exact List.forall_mem_nil _
  | refused => cases hnone
  | present fit _ _ ih => exact List.forall_mem_cons.2 ⟨fit, ih hnone⟩
  | new fit _ _ ih => exact List.forall_mem_cons.2 ⟨fit, ih hnone⟩

/-- Where there is an object under each key, nothing is new. -/
theorem eq_of_present (h : Sowing s seeds n t failure)
    (hall : ∀ x ∈ seeds, refusal? x.object = none ∧ ∃ o, x.found? s = some o) :
    n = 0 ∧ t = s ∧ failure = none := by
  induction h with
  | done => exact ⟨rfl, rfl, rfl⟩
  | refused why =>
    rw [(hall _ List.mem_cons_self).1] at why
    cases why
  | present _ _ _ ih => exact ih fun x hx => hall x (List.mem_cons_of_mem _ hx)
  | @new _ _ x _ _ _ _ _ free =>
    obtain ⟨o, ho⟩ := (hall x List.mem_cons_self).2
    rw [Seed.found?, find?, value?] at ho
    rw [Seed.slot] at free
    rw [free] at ho
    cases ho

end Sowing

/-- What objects that are created in order leave: `n` more than there were, each under a key of
theirs. Every object there was is as it was, there is one under each key, and under a key that was
free it is what the first of them with the key and the kind has grown into. -/
structure Sown (s : Store) (seeds : List Seed) (n : Nat) (t : Store) : Prop where
  length_eq : t.objects.entries.length = s.objects.entries.length + n
  kept : ∀ slot value, s.objects.get? slot = some value → t.objects.get? slot = some value
  added : ∀ slot value, t.objects.get? slot = some value →
    s.objects.get? slot = some value ∨ ∃ x ∈ seeds, x.slot = slot
  present : ∀ x ∈ seeds, ∃ o, x.found? t = some o
  first : ∀ x, First (·.slot = x.slot) seeds x → x.found? s = none →
    ∃ o, x.found? t = some o ∧ x.Grown o

namespace Sown

variable {s t : Store} {x : Seed} {rest : List Seed} {n : Nat} {now : Time}

theorem nil (s : Store) : Sown s [] 0 s where
  length_eq := rfl
  kept _ _ h := h
  added _ _ h := .inl h
  present := List.forall_mem_nil _
  first _ h := absurd h.mem List.not_mem_nil

theorem found?_kept (h : Sown s rest n t) {y : Seed} {o : y.kind.Object}
    (hf : y.found? s = some o) : y.found? t = some o := by
  rcases hv : s.objects.get? y.slot with _ | value
  · rw [Seed.found?, find?, value?] at hf
    rw [Seed.slot] at hv
    rw [hv] at hf
    cases hf
  · rw [Seed.found?_congr, hf]
    rw [h.kept _ _ hv, hv]

theorem cons_of_present {o : x.kind.Object} (there : x.found? s = some o) (h : Sown s rest n t) :
    Sown s (x :: rest) n t where
  length_eq := h.length_eq
  kept := h.kept
  added slot value hv := (h.added slot value hv).imp_right fun ⟨y, hy, hslot⟩ =>
    ⟨y, List.mem_cons_of_mem x hy, hslot⟩
  present := List.forall_mem_cons.2 ⟨⟨o, h.found?_kept there⟩, h.present⟩
  first y hfirst hnone := by
    obtain rfl | ⟨-, hrest⟩ := hfirst.of_cons
    · rw [there] at hnone
      cases hnone
    · exact h.first y hrest hnone

theorem cons_of_free (free : s.objects.get? x.slot = none) (h : Sown (x.grown s now) rest n t) :
    Sown s (x :: rest) (n + 1) t where
  length_eq := by
    have hgrown : (x.grown s now).objects.entries.length = s.objects.entries.length + 1 := by
      refine length_insertEntry _ ?_
      rw [key_stamped]
      exact free
    rw [h.length_eq, hgrown, Nat.add_right_comm, Nat.add_assoc]
  kept slot value hv := by
    refine h.kept slot value ?_
    rw [Seed.get?_grown, if_neg, hv]
    rintro rfl
    rw [free] at hv
    cases hv
  added slot value hv := by
    obtain hv | ⟨y, hy, hslot⟩ := h.added slot value hv
    · rw [Seed.get?_grown] at hv
      split at hv
      · rename_i hslot
        exact .inr ⟨x, List.mem_cons_self, hslot.symm⟩
      · exact .inl hv
    · exact .inr ⟨y, List.mem_cons_of_mem x hy, hslot⟩
  present := by
    obtain ⟨o, ho, -⟩ := x.found?_grown_self s now
    exact List.forall_mem_cons.2 ⟨⟨o, h.found?_kept ho⟩, h.present⟩
  first y hfirst hnone := by
    obtain rfl | ⟨hne, hrest⟩ := hfirst.of_cons
    · obtain ⟨o, ho, hgrown⟩ := y.found?_grown_self s now
      exact ⟨o, h.found?_kept ho, hgrown⟩
    · refine h.first y hrest ?_
      rw [Seed.found?_congr, hnone]
      rw [Seed.get?_grown, if_neg (Ne.symm hne)]

end Sown

theorem Sowing.sown {s t : Store} {seeds : List Seed} {n : Nat} (h : Sowing s seeds n t none) :
    Sown s seeds n t := by
  generalize hnone : none = f at h
  induction h with
  | done s => exact .nil s
  | refused => cases hnone
  | present _ there _ ih => exact (ih hnone).cons_of_present there
  | new _ free _ ih => exact (ih hnone).cons_of_free free

namespace Timed

theorem run_create {R α : Type} [Resource R] (o : R) (next : Except StoreError R → Program α)
    (s : Store) (clock : Nat → Time) :
    (Program.call (.create o) next).run access ⟨s, clock⟩
      = (next (s.create (clock 0) o).answer).run access
          ⟨(s.create (clock 0) o).store, fun n => clock (n + 1)⟩ :=
  rfl

end Timed

namespace Manifest

theorem sowing_sow {k : Kind} : ∀ (objects : List k.Object) {s : Store} (_ : s.Sound)
    (clock : Nat → Time), ∃ told failure t clock',
      (sow objects).run Timed.access ⟨s, clock⟩ = ((told, failure), ⟨t, clock'⟩) ∧ t.Sound ∧
      Sowing s (objects.map (Seed.mk k)) (told.countP Seeded.isNew) t failure
  | [], s, hs, clock => ⟨[], none, s, clock, rfl, hs, .done s⟩
  | object :: rest, s, hs, clock => by
    rw [sow, Timed.run_create, List.map_cons]
    rcases hwhy : refusal? object with _ | e
    · rcases hv : s.value? k.Object (Resource.key object) with _ | value
      · -- The object is new.
        have hsound : (s.grow (clock 0) object).Sound := by
          have hwrote := wrote_create s (clock 0) object
          rw [create_of_free hwhy hv] at hwrote
          exact hs.wrote hwrote
        obtain ⟨told, failure, t, clock', hrun, ht, hnext⟩ :=
          sowing_sow rest hsound fun n => clock (n + 1)
        rw [create_of_free hwhy hv]
        dsimp only
        rw [Program.run_bind, hrun]
        refine ⟨_ :: told, failure, t, clock', rfl, ht, ?_⟩
        rw [List.countP_cons_of_pos rfl]
        exact .new hwhy hv hnext
      · -- There is one.
        obtain ⟨told, failure, t, clock', hrun, ht, hnext⟩ :=
          sowing_sow rest hs fun n => clock (n + 1)
        have hfound := hv
        rw [(hs k).value?_eq] at hfound
        obtain ⟨o, ho, -⟩ := Option.map_eq_some_iff.1 hfound
        rw [create_of_taken hwhy hv]
        dsimp only
        rw [Program.run_bind, hrun]
        refine ⟨_ :: told, failure, t, clock', rfl, ht, ?_⟩
        rw [List.countP_cons_of_neg Bool.false_ne_true]
        exact .present hwhy ho hnext
    · rw [create_of_refusal hwhy]
      dsimp only
      split
      · exact absurd ‹_› (cause_of_refusal hwhy _ _)
      · exact ⟨[], _, s, _, rfl, hs, .refused hwhy⟩

variable (m : Manifest) {s : Store}

theorem sowing_sowAll (hs : s.Sound) (clock : Nat → Time) : ∃ told failure t clock',
    m.sowAll.run Timed.access ⟨s, clock⟩ = ((told, failure), ⟨t, clock'⟩) ∧ t.Sound ∧
      Sowing s m.seeds (told.countP Seeded.isNew) t failure := by
  obtain ⟨told, failure, t, clock', hrun, ht, hdomains⟩ :=
    sowing_sow (k := .domain) m.domains hs clock
  have hrun : (sow m.domains).run Timed.access ⟨s, clock⟩ = ((told, failure), ⟨t, clock'⟩) := hrun
  rw [sowAll, Program.run_bind, hrun]
  rcases failure with _ | e
  · obtain ⟨more, failure, u, clock'', hrun, hu, hregistrations⟩ :=
      sowing_sow (k := .registration) m.registrations ht clock'
    have hrun : (sow m.registrations).run Timed.access ⟨t, clock'⟩
        = ((more, failure), ⟨u, clock''⟩) := hrun
    dsimp only
    rw [Program.run_bind, hrun]
    refine ⟨told ++ more, failure, u, clock'', rfl, hu, ?_⟩
    rw [List.countP_append]
    exact hdomains.append hregistrations
  · exact ⟨told, some e, t, clock', rfl, ht, hdomains.append_of_refused _⟩

theorem sowing_apply (hs : s.Sound) (clock : Nat → Time) : ∃ n failure t clock',
    m.apply.run Timed.access ⟨s, clock⟩ = (failure.elim (.ok n) .error, ⟨t, clock'⟩) ∧ t.Sound ∧
      Sowing s m.seeds n t failure := by
  obtain ⟨told, failure, t, clock', hrun, ht, hsowing⟩ := m.sowing_sowAll hs clock
  refine ⟨_, failure, t, clock', ?_, ht, hsowing⟩
  rw [apply, Program.run_bind, hrun]
  cases failure <;> rfl

/-- Applying the manifest to the store answers that nothing is new, and changes nothing. -/
def Rests (s : Store) : Prop :=
  ∀ clock, ∃ clock', m.apply.run Timed.access ⟨s, clock⟩ = (.ok 0, ⟨s, clock'⟩)

/-- The objects of the manifest up to this one are in the store, and this one is refused: it is the
first that any store refuses for another reason than that there is one. -/
def Stuck (s : Store) (e : SeedError) (t : Store) : Prop :=
  ∃ front bad back n, m.seeds = front ++ bad :: back ∧ Sown s front n t ∧
    (∀ x ∈ front, ∀ u now e, ¬x.Refused u now e) ∧ (∀ u now, bad.Refused u now e.source) ∧
    e.kind = Resource.kind bad.kind.Object ∧ e.key = bad.key

/-- A manifest adds the first object of each key that is free and leaves all others as they are, and
has nothing to add when it is applied again. Where an object is refused, the objects before it were
added, and it is the one that the error names. -/
theorem apply_seeds (requests : List (Request × Time)) (clock : Nat → Time) :
    match m.apply.run Timed.access ⟨Store.empty.after requests, clock⟩ with
    | (.ok n, w) => Sown (Store.empty.after requests) m.seeds n w.store ∧ m.Rests w.store
    | (.error e, w) => m.Stuck (Store.empty.after requests) e w.store := by
  obtain ⟨n, failure, t, clock', hrun, ht, hsowing⟩ :=
    m.sowing_apply (Sound.empty.after requests) clock
  rw [hrun]
  rcases failure with _ | e
  · refine ⟨hsowing.sown, fun clock => ?_⟩
    obtain ⟨n', failure, u, clock', hagain, -, hnext⟩ := m.sowing_apply ht clock
    obtain ⟨rfl, rfl, rfl⟩ := hnext.eq_of_present fun x hx =>
      ⟨hsowing.fit x hx, hsowing.sown.present x hx⟩
    exact ⟨clock', hagain⟩
  · obtain ⟨front, bad, back, heq, hfront, hkind, hkey, hwhy⟩ := hsowing.split
    exact ⟨front, bad, back, n, heq, hfront.sown,
      fun x hx u now e => Seed.not_refused (hfront.fit x hx) e,
      fun u now => Seed.refused_of_refusal hwhy, hkind, hkey⟩

example : (apply ⟨[.named "a.org", .named "b.org", .named "a.org"], []⟩
    |>.run Timed.access ⟨.empty, fun _ => .epoch⟩).1.toOption = some 2 := by decide +kernel

end Manifest

end Registrar
