import Registrar.Proofs.Passes.Port
import Registrar.Proofs.Store.Request
import Registrar.Proofs.Store.Shelf

/-!
# Replaying what is told

A call tells what it does. One that fails or has nothing to change leaves the store as it is and is
silent; any other puts or drops the object of one key and tells that object (`told_outcome`). So the
events of a kind, filed one after the other in a map that is empty at first, give the objects that
the store lists (`list_eq_replayed`).
-/

namespace Registrar

open Resource Parts

/-- The objects by their keys after an event. -/
def WatchEvent.file {R : Type} [Resource R] (m : SortedMap Key R) : WatchEvent R → SortedMap Key R
  | .applied next => m.insert (Resource.key next) next
  | .deleted last => m.erase (Resource.key last)

/-- What a request tells those who watch a kind. -/
def Request.event? (r : Request) (s : Store) (now : Time) (k : Kind) :
    Option (WatchEvent k.Object) :=
  if h : r.kind = k then h ▸ (r.outcome s now).event else none

namespace Store

/-- What those who watch a kind are told while a list of requests is served. -/
def events (s : Store) (k : Kind) : List (Request × Time) → List (WatchEvent k.Object)
  | [] => []
  | (r, now) :: rest => (r.event? s now k).toList ++ (r.serve now s).events k rest

variable {R α : Type} [Resource R] [Parts R] {s : Store} {key : Key} {o : Outcome R α}

/-- A call does what it tells: nothing, or something to the object of a key. -/
inductive Told (s : Store) (key : Key) : Outcome R α → Prop
  | silent (answer : Except StoreError α) : Told s key ⟨answer, none, s⟩
  | applied (a : α) {next : R} (issued : Nat) (key_eq : Resource.key next = key)
      (changed : s.find? R key ≠ some next) :
      Told s key ⟨.ok a, some (.applied next), { s with issued }.put next⟩
  | deleted (a : α) {last : R} (key_eq : Resource.key last = key) (found : s.find? R key ≠ none) :
      Told s key ⟨.ok a, some (.deleted last), s.drop R key⟩

/-- An object whose version is raised is another one. -/
theorem raised_ne {o current : R} {changed : Bool}
    (h : (metadata o).resourceVersion = (metadata current).resourceVersion) :
    some current ≠ some (raised o changed) := by
  intro heq
  have hversion := congrArg (fun o => (metadata o).resourceVersion) (Option.some.inj heq)
  simp [raised, h] at hversion

theorem told_create (s : Store) (now : Time) (o : R) :
    Told s (Resource.key o) (s.create now o) := by
  obtain ⟨e, h⟩ | ⟨new, rfl, -, habsent, h⟩ := create_cases (s := s) now o
  · rw [h]
    exact .silent _
  · rw [h]
    exact .applied _ _ (key_stamped o _ now) (by simp [find?, habsent])

theorem told_patch (h : s.SoundFor R) (base mutated : R) :
    Told s (Resource.key base) (s.patch base mutated) := by
  obtain ⟨e, hp⟩ | ⟨current, hacc, hkey, ⟨-, hp⟩ |
    ⟨next, changed, rfl, -, -, -, ⟨-, -, hp⟩ | ⟨-, hp⟩⟩⟩ := patch_cases h base mutated <;> rw [hp]
  · exact .silent _
  · exact .silent _
  · exact .deleted _ (by simp [hkey]) (by simp [hacc.found])
  · refine .applied _ s.issued (by simp [hkey]) ?_
    rw [hacc.found]
    exact raised_ne (by simp [merged, withServerFields])

theorem told_updateStatus (h : s.SoundFor R) (o : R) :
    Told s (Resource.key o) (s.updateStatus o) := by
  obtain ⟨e, hp⟩ | ⟨current, hacc, ⟨-, hp⟩ | ⟨next, rfl, -, hp⟩⟩ := updateStatus_cases h o <;>
    rw [hp]
  · exact .silent _
  · exact .silent _
  · refine .applied _ s.issued (by simp [(h.proper hacc.found).key_eq]) ?_
    rw [hacc.found]
    exact raised_ne (by simp)

theorem told_delete (h : s.SoundFor R) (key : Key) (now : Time) :
    Told s key (s.delete R key now) := by
  obtain ⟨e, hp⟩ | ⟨current, hf, ⟨-, hp⟩ | ⟨-, hp⟩ | ⟨-, -, hp⟩⟩ := delete_cases h key now <;>
    rw [hp]
  · exact .silent _
  · exact .silent _
  · exact .deleted _ (h.proper hf).key_eq (by simp [hf])
  · refine .applied _ s.issued (by simp [(h.proper hf).key_eq]) ?_
    rw [hf]
    exact raised_ne (by simp)

namespace Told

variable (h : Told s key o)
include h

theorem event_isSome_iff : o.event.isSome ↔ o.store.objects ≠ s.objects := by
  have hfind : o.store.objects = s.objects → o.store.find? R key = s.find? R key := fun heq => by
    rw [find?, find?, value?, value?, heq]
  cases h with
  | silent => simp
  | applied _ _ key_eq changed =>
    refine iff_of_true rfl fun heq => changed ?_
    rw [← hfind heq, find?_put, key_eq, if_pos rfl]
  | deleted _ _ found =>
    refine iff_of_true rfl fun heq => found ?_
    rw [← hfind heq, find?_drop_self]

theorem store_eq (hnone : o.event = none) : o.store = s := by
  cases h with
  | silent => rfl
  | applied => cases hnone
  | deleted => cases hnone

theorem event_eq_none {e : StoreError} (he : o.answer = .error e) : o.event = none := by
  cases h with
  | silent => rfl
  | applied => cases he
  | deleted => cases he

theorem get?_of_ne {place : Slot} (hne : place ≠ slot R key) :
    o.store.objects.get? place = s.objects.get? place := by
  cases h with
  | silent => rfl
  | applied _ _ key_eq =>
    rw [put, SortedMap.get?_insert, key_eq, if_neg (by simpa using hne)]
  | deleted =>
    rw [drop, SortedMap.get?_erase, if_neg (by simpa using hne)]

/-- What has changed of the object of a key is told, by an object of this key. -/
theorem event_of_changed {key' : Key} (hchanged : o.store.find? R key' ≠ s.find? R key') :
    ∃ event, o.event = some event ∧ Resource.key event.object = key' := by
  by_contra hnone
  refine hchanged ?_
  cases h with
  | silent => rfl
  | @applied _ next =>
    have hne : key' ≠ Resource.key next := fun hkey => hnone ⟨_, rfl, hkey.symm⟩
    rw [find?_put, if_neg hne]
    rfl
  | deleted _ key_eq =>
    have hne : key' ≠ key := fun hkey => hnone ⟨_, rfl, key_eq.trans hkey.symm⟩
    rw [find?_drop, if_neg hne]

theorem find?_other {Q : Type} [Resource Q] (hk : kind Q ≠ kind R) (key' : Key) :
    o.store.find? Q key' = s.find? Q key' := by
  cases h with
  | silent => rfl
  | applied => exact find?_put_other hk
  | deleted => exact find?_drop_other hk

/-- An event is filed where its object is put or dropped. -/
theorem value?_filed {m : SortedMap Key R} (hm : ∀ key, s.value? R key = (m.get? key).map json)
    (key' : Key) :
    o.store.value? R key' = ((o.event.elim m (WatchEvent.file m)).get? key').map json := by
  cases h with
  | silent => exact hm key'
  | applied =>
    rw [value?_put, Option.elim_some, WatchEvent.file, SortedMap.get?_insert]
    simp only [slot_eq_iff, Std.compare_eq_iff_eq]
    split
    · rfl
    · exact hm key'
  | deleted _ key_eq =>
    rw [value?_drop, Option.elim_some, WatchEvent.file, SortedMap.get?_erase, key_eq]
    simp only [slot_eq_iff, Std.compare_eq_iff_eq]
    split
    · rfl
    · exact hm key'

end Told

end Store

namespace Request

open Store

variable {s : Store}

theorem told_outcome (h : s.Sound) (r : Request) (now : Time) :
    Told s r.call.key (r.outcome s now) := by
  cases r with
  | get k key => exact .silent _
  | list k => exact .silent _
  | create k object => exact told_create s now object
  | patch k base mutated => exact told_patch (h k) base mutated
  | updateStatus k object => exact told_updateStatus (h k) object
  | delete k key => exact told_delete (h k) key now

/-- A request tells one event when it changes what is stored. When it is refused or leaves all as it
is, it is silent and the store stays the same. -/
structure Tells (r : Request) (s : Store) (now : Time) : Prop where
  changed_iff : (r.outcome s now).event.isSome ↔ (r.serve now s).objects ≠ s.objects
  same : (r.outcome s now).event = none → r.serve now s = s
  refused : ∀ e, (r.outcome s now).answer = .error e → (r.outcome s now).event = none
  /-- Nothing but the object of its key changes. -/
  confined : ∀ place, place ≠ slot r.kind.Object r.call.key →
    (r.serve now s).objects.get? place = s.objects.get? place
  /-- On the bus it publishes this event, under its kind, and nothing else. -/
  published : ∀ bus, Cluster.perform r.call ⟨s, bus, now⟩ = ((r.outcome s now).answer,
    { store := r.serve now s
      bus := (r.outcome s now).event.elim bus fun event =>
        (bus.publish (Resource.kind r.kind.Object) (event.map Cluster.wire)).2
      now })

theorem perform_call_cluster (r : Request) (w : Cluster) :
    Cluster.perform r.call w = w.settle (r.outcome w.store w.now) := by
  cases r <;> rfl

theorem tells (h : s.Sound) (r : Request) (now : Time) : r.Tells s now := by
  have htold := r.told_outcome h now
  constructor
  · rw [serve_eq]
    exact htold.event_isSome_iff
  · rw [serve_eq]
    exact htold.store_eq
  · exact fun e => htold.event_eq_none
  · rw [serve_eq]
    exact fun place => htold.get?_of_ne
  · intro bus
    rw [perform_call_cluster, Cluster.settle_eq, serve_eq]
    rcases (r.outcome s now).event with _ | event <;> rfl

/-- What was told of a kind is filed as the request left the objects of the kind. -/
theorem value?_filed (h : s.Sound) (r : Request) (now : Time) {k : Kind}
    {m : SortedMap Key k.Object} (hm : ∀ key, s.value? k.Object key = (m.get? key).map json)
    (key : Key) : (r.serve now s).value? k.Object key
      = (((r.event? s now k).toList.foldl WatchEvent.file m).get? key).map json := by
  have htold := r.told_outcome h now
  rw [serve_eq, event?]
  by_cases hk : r.kind = k
  · subst hk
    rw [dif_pos rfl, htold.value?_filed hm]
    rcases (r.outcome s now).event with _ | event <;> rfl
  · rw [dif_neg hk, value?, htold.get?_of_ne]
    · exact hm key
    · simpa [slot] using fun heq => absurd heq.symm (Kind.kind_ne hk)

end Request

namespace Store

theorem value?_replayed {k : Kind} : ∀ {s : Store} {m : SortedMap Key k.Object}
    (requests : List (Request × Time)), s.Sound →
    (∀ key, s.value? k.Object key = (m.get? key).map json) →
    ∀ key, (s.after requests).value? k.Object key
      = (((s.events k requests).foldl WatchEvent.file m).get? key).map json
  | _, _, [], _, hm => hm
  | s, m, (r, now) :: rest, h, hm => by
    rw [after, events, List.foldl_append]
    exact value?_replayed rest (r.sound_serve h now) (r.value?_filed h now hm)

/-- Whatever was asked of a store that was empty at first, the next request tells what it does, and
the events of a kind that were told give the objects of the kind that are listed. -/
theorem list_eq_replayed (requests : List (Request × Time)) :
    (∀ (r : Request) (now : Time), r.Tells (empty.after requests) now) ∧
    ∀ k : Kind, (empty.after requests).list k.Object
      = .ok (((empty.events k requests).foldl WatchEvent.file .empty).entries.map Prod.snd) :=
  ⟨fun r now => r.tells (Sound.empty.after requests) now,
    fun _ => list_eq_of_written (value?_replayed requests Sound.empty fun _ => rfl)⟩

end Store

end Registrar
