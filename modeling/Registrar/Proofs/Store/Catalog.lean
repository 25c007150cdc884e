import Mathlib.Logic.Function.Basic
import Registrar.Proofs.Store.Request
import Registrar.Proofs.Store.Shelf

/-!
# The catalog

A catalog keeps the objects themselves, a map for each kind, and says what the calls of a store mean
without a word on how objects are written. A store that shows a catalog holds what is written of its
objects and nothing else of their kinds; each request gets the same answer from both, tells the same
event, and leaves a store that shows the catalog it leaves (`Shows.serve`). So a store answers like
the catalog whatever was asked of both before (`serves_as_catalog`).
-/

namespace Registrar

open Resource Parts

/-- The objects of each kind by their keys, and how many uids have been handed out. -/
structure Catalog where
  objects : (k : Kind) → SortedMap Key k.Object
  issued : Nat

namespace Catalog

/-- The answer to a call, what it tells, and the catalog after it. -/
structure Outcome (R α : Type) where
  answer : Except StoreError α
  event : Option (WatchEvent R)
  catalog : Catalog

/-- What a write is going to do. -/
inductive Change (R : Type) where
  | keep (current : R)
  | put (next : R)
  | remove (last : R)

def empty : Catalog :=
  ⟨fun _ => .empty, 0⟩

variable {k : Kind}

def get (c : Catalog) (k : Kind) (key : Key) : Except StoreError k.Object :=
  ((c.objects k).get? key).elim (.error { cause := .notFound (Resource.kind k.Object) key }) .ok

def list (c : Catalog) (k : Kind) : List k.Object :=
  (c.objects k).entries.map Prod.snd

/-- The catalog with another map for a kind. -/
def set (c : Catalog) (k : Kind) (m : SortedMap Key k.Object) : Catalog :=
  { c with objects := Function.update c.objects k m }

def commit (c : Catalog) (key : Key) :
    Except StoreError (Change k.Object) → Outcome k.Object k.Object
  | .error e => ⟨.error e, none, c⟩
  | .ok (.keep current) => ⟨.ok current, none, c⟩
  | .ok (.put next) => ⟨.ok next, some (.applied next), c.set k ((c.objects k).insert key next)⟩
  | .ok (.remove last) => ⟨.ok last, some (.deleted last), c.set k ((c.objects k).erase key)⟩

/-- An object as it is first kept. -/
def newborn (o : k.Object) (uid : String) (now : Time) : k.Object :=
  let m := metadata o
  withMetadata o {
    name := m.name, ns? := m.ns?, finalizers := m.finalizers
    uid, resourceVersion := 1, generation := 1, creationTime := some now }

def create (c : Catalog) (now : Time) (o : k.Object) : Outcome k.Object k.Object :=
  let key := Resource.key o
  match Store.identityFault? o with
  | some message => c.commit key (.error {
      cause := .internal message
      context := some s!"Creating {Resource.kind k.Object} '{key}'" })
  | none =>
    if ((c.objects k).get? key).isSome then
      c.commit key (.error { cause := .alreadyExists (Resource.kind k.Object) key })
    else
      commit { c with issued := c.issued + 1 } key
        (.ok (.put (newborn o (Uid.nth (c.issued + 1)) now)))

/-- The object that a write of `base` may change: the one that is kept, in the version of `base`. -/
def current (c : Catalog) (base : k.Object) : Except StoreError k.Object := do
  let key := Resource.key base
  let current ← c.get k key
  let expected := (metadata base).resourceVersion
  let found := (metadata current).resourceVersion
  if expected ≠ found then
    throw { cause := .conflict (Resource.kind k.Object) key expected found }
  return current

/-- An object with the name, the finalizers and the spec of `mutated`. All else is of `current`. -/
def assembled (mutated current : k.Object) : k.Object :=
  let m := metadata mutated
  withStatus
    (withMetadata mutated
      { metadata current with name := m.name, ns? := m.ns?, finalizers := m.finalizers })
    (status current)

/-- An object in its next version, and in its next generation when its spec has changed. -/
def bumped (o : k.Object) (specChanged : Bool) : k.Object :=
  let m := metadata o
  withMetadata o { m with
    resourceVersion := m.resourceVersion + 1
    generation := m.generation + if specChanged then 1 else 0 }

/-- An object is put, unless it is deleting and holds no finalizer. -/
def settled (next : k.Object) : Change k.Object :=
  if isDeleting next ∧ (metadata next).finalizers = [] then .remove next else .put next

def planPatch (c : Catalog) (base mutated : k.Object) : Except StoreError (Change k.Object) := do
  let key := Resource.key base
  if Resource.key mutated ≠ key then
    throw {
      cause := .internal s!"Patch cannot move {key} to {Resource.key mutated}"
      context := some (Resource.kind k.Object) }
  let current ← c.current base
  let next := assembled mutated current
  if next = current then return .keep current
  if immutableSpec k.Object ∧ spec mutated ≠ spec current then
    throw { cause := .immutable (Resource.kind k.Object) key "spec" }
  return settled (bumped next (spec mutated ≠ spec current))

def patch (c : Catalog) (base mutated : k.Object) : Outcome k.Object k.Object :=
  c.commit (Resource.key base) (c.planPatch base mutated)

def planStatus (c : Catalog) (o : k.Object) : Except StoreError (Change k.Object) := do
  let current ← c.current o
  if status o = status current then return .keep current
  return .put (bumped (withStatus current (status o)) false)

def updateStatus (c : Catalog) (o : k.Object) : Outcome k.Object k.Object :=
  c.commit (Resource.key o) (c.planStatus o)

def planDelete (c : Catalog) (k : Kind) (key : Key) (now : Time) :
    Except StoreError (Change k.Object) := do
  let current ← c.get k key
  let m := metadata current
  if m.finalizers = [] then return .remove current
  if m.isDeleting then return .keep current
  return .put (bumped (withMetadata current { m with deletionTime := some now }) false)

def delete (c : Catalog) (k : Kind) (key : Key) (now : Time) : Outcome k.Object Unit :=
  let outcome := c.commit key (c.planDelete k key now)
  { outcome with answer := outcome.answer.map fun _ => () }

/-- What a catalog does with a request at a time. -/
def serve (c : Catalog) (now : Time) : (r : Request) → Outcome r.kind.Object r.Answer
  | .get k key => ⟨c.get k key, none, c⟩
  | .list k => ⟨.ok (c.list k), none, c⟩
  | .create _ object => c.create now object
  | .patch _ base mutated => c.patch base mutated
  | .updateStatus _ object => c.updateStatus object
  | .delete k key => c.delete k key now

/-- The catalog after a list of requests, each at its time. -/
def after (c : Catalog) : List (Request × Time) → Catalog
  | [] => c
  | (r, now) :: rest => (c.serve now r).catalog.after rest

variable {c : Catalog} {s : Store}

/-- A store holds what is written of the objects of a catalog. -/
structure Shows (c : Catalog) (s : Store) : Prop where
  issued_eq : s.issued = c.issued
  value?_eq : ∀ (k : Kind) (key : Key),
    s.value? k.Object key = ((c.objects k).get? key).map json

/-- A change of a catalog as it is written in a store. -/
def Change.written : Change k.Object → Store.Change k.Object
  | .keep current => .keep current
  | .put next => .put next (json next)
  | .remove last => .remove last

/-- A store does to what it holds what a catalog does. -/
structure Outcome.Matches {α : Type} (o : Outcome k.Object α) (o' : Store.Outcome k.Object α) :
    Prop where
  answer_eq : o'.answer = o.answer
  event_eq : o'.event = o.event
  shows : o.catalog.Shows o'.store

theorem carryStatus_json (mutated current : k.Object) :
    Store.carryStatus (json (Store.withServerFields mutated current)) (json current)
      = json (assembled mutated current) :=
  carry_json _ _

theorem raised_eq (o : k.Object) (specChanged : Bool) :
    Store.raised o specChanged = bumped o specChanged := by
  cases specChanged <;> simp [Store.raised, bumped]

/-- The member `spec` tells whether the spec has changed. -/
theorem specChanged_eq (mutated current : k.Object) :
    ((json (assembled mutated current)).member? "spec" != (json current).member? "spec")
      = decide (spec mutated ≠ spec current) := by
  have hspec : spec (assembled mutated current) = spec mutated := by simp [assembled]
  rw [← hspec, bne, Bool.eq_iff_iff, Bool.not_eq_true', ← Bool.not_eq_true, beq_spec_iff,
    decide_eq_true_iff]

theorem settle_eq (next : k.Object) : Store.settle next = .ok (settled next).written := by
  rw [Store.settle, settled, Store.encode_eq_ok]
  simp only [Bool.and_eq_true, List.isEmpty_iff, ← Resource.isDeleting.eq_1]
  split <;> rfl

theorem objects_set (c : Catalog) (k k' : Kind) (m : SortedMap Key k.Object) :
    (c.set k m).objects k' = Function.update c.objects k m k' :=
  rfl

namespace Shows

theorem empty : Catalog.empty.Shows Store.empty :=
  ⟨rfl, fun _ _ => rfl⟩

variable (h : c.Shows s)
include h

theorem value_eq (k : Kind) (key : Key) : s.value k.Object key = (c.get k key).map json := by
  rw [Store.value, h.value?_eq, get]
  cases (c.objects k).get? key <;> rfl

theorem get_eq (k : Kind) (key : Key) : s.get k.Object key = c.get k key := by
  rw [Store.get, h.value_eq]
  rcases c.get k key with e | o
  · rfl
  · exact Store.decode_eq_ok o

theorem list_eq (k : Kind) : s.list k.Object = .ok (c.list k) :=
  Store.list_eq_of_written (h.value?_eq k)

theorem put (key : Key) (o : k.Object) : (c.set k ((c.objects k).insert key o)).Shows
    { s with objects := s.objects.insert (Store.slot k.Object key) (json o) } where
  issued_eq := h.issued_eq
  value?_eq k' key' := by
    rw [Store.value?, SortedMap.get?_insert, objects_set]
    by_cases hk : k' = k
    · subst hk
      simp only [Function.update_self, SortedMap.get?_insert, Std.compare_eq_iff_eq,
        Store.slot_eq_iff]
      split
      · rfl
      · exact h.value?_eq k' key'
    · rw [Function.update_of_ne hk, if_neg, ← Store.value?, h.value?_eq]
      simpa [Store.slot] using fun heq => absurd heq (Kind.kind_ne hk)

theorem drop (k : Kind) (key : Key) : (c.set k ((c.objects k).erase key)).Shows
    { s with objects := s.objects.erase (Store.slot k.Object key) } where
  issued_eq := h.issued_eq
  value?_eq k' key' := by
    rw [Store.value?, SortedMap.get?_erase, objects_set]
    by_cases hk : k' = k
    · subst hk
      simp only [Function.update_self, SortedMap.get?_erase, Std.compare_eq_iff_eq,
        Store.slot_eq_iff]
      split
      · rfl
      · exact h.value?_eq k' key'
    · rw [Function.update_of_ne hk, if_neg, ← Store.value?, h.value?_eq]
      simpa [Store.slot] using fun heq => absurd heq (Kind.kind_ne hk)

theorem commit (key : Key) (plan : Except StoreError (Change k.Object)) :
    (c.commit key plan).Matches (s.commit key (plan.map Change.written)) := by
  rcases plan with e | current | next | last
  · exact ⟨rfl, rfl, h⟩
  · exact ⟨rfl, rfl, h⟩
  · exact ⟨rfl, rfl, h.put key next⟩
  · exact ⟨rfl, rfl, h.drop k key⟩

theorem issue : Shows { c with issued := c.issued + 1 } { s with issued := c.issued + 1 } :=
  ⟨rfl, h.value?_eq⟩

theorem create (now : Time) (o : k.Object) : (c.create now o).Matches (s.create now o) := by
  rw [Catalog.create, Store.create]
  rcases Store.identityFault? o with _ | message
  · dsimp only
    rw [h.value?_eq, h.issued_eq, Store.encode_eq_ok]
    rcases (c.objects k).get? (Resource.key o) with _ | stored
    · exact h.issue.commit (Resource.key o)
        (.ok (.put (newborn o (Uid.nth (c.issued + 1)) now)))
    · exact h.commit (Resource.key o)
        (.error { cause := .alreadyExists (Resource.kind k.Object) (Resource.key o) })
  · exact h.commit _ (.error _)

/-- A store finds what a catalog finds for a write, and goes on with it and what is written of it.
-/
theorem current_bind {α : Type} (base : k.Object) (next : Json → k.Object → Except StoreError α) :
    (do
      let value ← s.value k.Object (Resource.key base)
      let current ← Store.decode k.Object value
      Store.checkVersion (Resource.key base) base current
      next value current) = c.current base >>= fun current => next (json current) current := by
  rw [h.value_eq, Catalog.current]
  rcases c.get k (Resource.key base) with e | current
  · rfl
  · simp only [Except.map, bind, Except.bind, Store.decode_eq_ok, Store.checkVersion]
    by_cases hversion : (metadata base).resourceVersion = (metadata current).resourceVersion
    · simp [hversion, pure, Except.pure]
    · simp [hversion, throw, throwThe, MonadExceptOf.throw]

theorem planPatch (base mutated : k.Object) :
    s.planPatch base mutated = (c.planPatch base mutated).map Change.written := by
  rw [Store.planPatch, Catalog.planPatch]
  dsimp only
  split
  · rfl
  · refine (h.current_bind base _).trans ?_
    rcases c.current base with e | current
    · rfl
    · simp only [bind, Except.bind, Store.encode_eq_ok, Store.decode_eq_ok, carryStatus_json,
        beq_json_iff, specChanged_eq, raised_eq, settle_eq, Bool.and_eq_true, decide_eq_true_iff,
        and_comm (b := immutableSpec k.Object = true)]
      split
      · rfl
      · split <;> rfl

theorem planStatus (o : k.Object) :
    s.planStatus o = (c.planStatus o).map Change.written := by
  refine (h.current_bind o _).trans ?_
  rw [Catalog.planStatus]
  rcases c.current o with e | current
  · rfl
  · have hsame : withStatus current (status o) = current ↔ status o = status current :=
      ⟨fun he => by rw [← he, status_withStatus], fun he => ext (by simp) (by simp) (by simp [he])⟩
    simp only [bind, Except.bind, Store.encode_eq_ok, Store.decode_eq_ok, carry_json, beq_json_iff,
      hsame, raised_eq]
    split <;> rfl

theorem planDelete (k : Kind) (key : Key) (now : Time) :
    s.planDelete k.Object key now = (c.planDelete k key now).map Change.written := by
  rw [Store.planDelete, Catalog.planDelete, h.value_eq]
  rcases c.get k key with e | current
  · rfl
  · simp only [Except.map, bind, Except.bind, Store.encode_eq_ok, Store.decode_eq_ok,
      List.isEmpty_iff, raised_eq]
    split
    · rfl
    · split <;> rfl

/-- A store that shows a catalog answers a request as the catalog does, and shows what it leaves. -/
theorem serve (now : Time) (r : Request) : (c.serve now r).Matches (r.outcome s now) := by
  cases r with
  | get k key => exact ⟨h.get_eq k key, rfl, h⟩
  | list k => exact ⟨h.list_eq k, rfl, h⟩
  | create k o => exact h.create now o
  | patch k base mutated =>
    have hcommit := h.commit (Resource.key base) (c.planPatch base mutated)
    rwa [← h.planPatch] at hcommit
  | updateStatus k o =>
    have hcommit := h.commit (Resource.key o) (c.planStatus o)
    rwa [← h.planStatus] at hcommit
  | delete k key =>
    have hcommit := h.commit key (c.planDelete k key now)
    rw [← h.planDelete] at hcommit
    exact ⟨congrArg (Except.map fun _ => ()) hcommit.answer_eq, hcommit.event_eq, hcommit.shows⟩

omit h in
theorem after : ∀ {c : Catalog} {s : Store} (requests : List (Request × Time)), c.Shows s →
    (c.after requests).Shows (s.after requests)
  | _, _, [], h => h
  | c, s, (r, now) :: rest, h => by
    rw [Store.after, Request.serve_eq]
    exact after rest (h.serve now r).shows

end Shows

section Errors

/-- An answer does not tell of an object that could not be written or read. -/
def Legible {α : Type} (answer : Except StoreError α) : Prop :=
  ∀ e reason, answer = .error e → e.cause ≠ .serialization reason

variable {α β : Type} {x : Except StoreError α} {f : α → Except StoreError β}

theorem Legible.ok (a : α) : Legible (.ok a : Except StoreError α) :=
  nofun

theorem Legible.bind (hx : Legible x) (hf : ∀ a, Legible (f a)) : Legible (x >>= f) := by
  rcases x with e | a
  · exact fun e' reason he => hx e' reason (congrArg Except.error (Except.error.inj he))
  · exact hf a

theorem Legible.map (hx : Legible x) (f : α → β) : Legible (x.map f) := by
  rcases x with e | a
  · exact fun e' reason he => hx e' reason (congrArg Except.error (Except.error.inj he))
  · exact .ok _

theorem legible_error {e : StoreError} (h : ∀ reason, e.cause ≠ .serialization reason) :
    Legible (.error e : Except StoreError α) := by
  rintro e' reason he
  obtain rfl := Except.error.inj he
  exact h reason

theorem legible_get (c : Catalog) (k : Kind) (key : Key) : Legible (c.get k key) := by
  rw [get]
  rcases (c.objects k).get? key with _ | o
  · exact legible_error nofun
  · exact .ok o

theorem legible_current (c : Catalog) (base : k.Object) : Legible (c.current base) := by
  refine (c.legible_get k _).bind fun current => ?_
  dsimp only
  split
  · exact legible_error nofun
  · exact .ok current

theorem legible_planPatch (c : Catalog) (base mutated : k.Object) :
    Legible (c.planPatch base mutated) := by
  rw [planPatch]
  dsimp only
  split
  · exact legible_error nofun
  · refine (c.legible_current base).bind fun current => ?_
    split
    · exact .ok _
    · split
      · exact legible_error nofun
      · exact .ok _

theorem legible_planStatus (c : Catalog) (o : k.Object) : Legible (c.planStatus o) := by
  refine (c.legible_current o).bind fun current => ?_
  split <;> exact .ok _

theorem legible_planDelete (c : Catalog) (k : Kind) (key : Key) (now : Time) :
    Legible (c.planDelete k key now) := by
  refine (c.legible_get k key).bind fun current => ?_
  dsimp only
  split
  · exact .ok _
  · split <;> exact .ok _

theorem legible_commit (c : Catalog) (key : Key) {plan : Except StoreError (Change k.Object)}
    (h : Legible plan) : Legible (c.commit key plan).answer := by
  rcases plan with e | current | next | last
  · exact legible_error fun reason => h e reason rfl
  · exact .ok current
  · exact .ok next
  · exact .ok last

theorem legible_serve (c : Catalog) (now : Time) (r : Request) :
    Legible (c.serve now r).answer := by
  cases r with
  | get k key => exact c.legible_get k key
  | list k => exact .ok _
  | create k o =>
    change Legible (c.create now o).answer
    unfold create
    split
    · exact c.legible_commit _ (legible_error nofun)
    · dsimp only
      split
      · exact c.legible_commit _ (legible_error nofun)
      · exact legible_commit _ _ (.ok _)
  | patch k base mutated => exact c.legible_commit _ (c.legible_planPatch base mutated)
  | updateStatus k o => exact c.legible_commit _ (c.legible_planStatus o)
  | delete k key => exact (c.legible_commit key (c.legible_planDelete k key now)).map _

end Errors

/-- Whatever was asked of a store and of a catalog before, both answer a request alike and tell the
same event. The store holds what is written of the objects of the catalog, and no answer tells of an
object that could not be written or read. -/
theorem serves_as_catalog (requests : List (Request × Time)) (r : Request) (now : Time) :
    (r.outcome (Store.empty.after requests) now).answer
      = ((empty.after requests).serve now r).answer ∧
    (r.outcome (Store.empty.after requests) now).event
      = ((empty.after requests).serve now r).event ∧
    (∀ (k : Kind) (key : Key), (Store.empty.after requests).value? k.Object key
      = (((empty.after requests).objects k).get? key).map json) ∧
    Legible (r.outcome (Store.empty.after requests) now).answer := by
  have hshows := Shows.empty.after requests
  have hserve := hshows.serve now r
  refine ⟨hserve.answer_eq, hserve.event_eq, hshows.value?_eq, ?_⟩
  rw [hserve.answer_eq]
  exact (empty.after requests).legible_serve now r

end Catalog

end Registrar
