import Registrar.Resource
import Registrar.SortedMap
import Registrar.Store.Error
import Registrar.Uid

/-!
# The store

The store keeps objects as JSON, under their kind and key. A write that starts from an object is
taken only when that object is the stored version. Each write that changes something tells so by one
event and raises the resource version by one; the generation counts the changes of `spec`.
-/

namespace Registrar

structure Slot where
  kind : String
  key : Key
  deriving DecidableEq

instance : Ord Slot :=
  ⟨compareLex (compareOn Slot.kind) (compareOn Slot.key)⟩

instance : Std.TransOrd Slot :=
  inferInstanceAs (Std.TransCmp (compareLex (compareOn Slot.kind) (compareOn Slot.key)))

instance : Std.LawfulEqOrd Slot where
  compare_self {_} := @Std.ReflCmp.compare_self _
    (compareLex (compareOn Slot.kind) (compareOn Slot.key)) _ _
  eq_of_compare {a b} h := by
    change (compare a.kind b.kind).then (compare a.key b.key) = .eq at h
    obtain ⟨hkind, hkey⟩ := Ordering.then_eq_eq.1 h
    cases a; cases b
    exact congr (congrArg Slot.mk (Std.LawfulEqCmp.eq_of_compare hkind))
      (Std.LawfulEqCmp.eq_of_compare hkey)

/-- What a write tells those who watch the kind. -/
inductive WatchEvent (R : Type) where
  /-- The object was created or changed, and is now this. -/
  | applied (object : R)
  /-- The object is gone, and was this last. -/
  | deleted (object : R)
  deriving DecidableEq

namespace WatchEvent

variable {R S : Type}

def object : WatchEvent R → R
  | .applied object | .deleted object => object

def map (f : R → S) : WatchEvent R → WatchEvent S
  | .applied object => .applied (f object)
  | .deleted object => .deleted (f object)

end WatchEvent

structure Store where
  objects : SortedMap Slot Json
  /-- How many uids have been handed out. -/
  issued : Nat

/-- What a write is going to do. -/
inductive Store.Change (R : Type) where
  /-- Nothing; the object stays this. -/
  | keep (current : R)
  | put (next : R) (value : Json)
  | remove (last : R)

/-- The answer to a write, what it tells, and the store after it. -/
structure Store.Outcome (R α : Type) where
  answer : Except StoreError α
  event : Option (WatchEvent R)
  store : Store

namespace Store

def empty : Store :=
  ⟨.empty, 0⟩

instance : Inhabited Store :=
  ⟨empty⟩

variable {R : Type} [Resource R]

def slot (R : Type) [Resource R] (key : Key) : Slot :=
  ⟨Resource.kind R, key⟩

def notFound (R : Type) [Resource R] (key : Key) : StoreError where
  cause := .notFound (Resource.kind R) key

def encode (object : R) : Except StoreError Json :=
  (Resource.encode object).mapError fun reason =>
    { cause := .serialization reason, context := some ("Encoding " ++ Resource.kind R) }

def decode (R : Type) [Resource R] (value : Json) : Except StoreError R :=
  (Resource.decode value).mapError fun reason =>
    { cause := .serialization reason, context := some ("Decoding " ++ Resource.kind R) }

/-- The stored JSON of an object. -/
def value? (s : Store) (R : Type) [Resource R] (key : Key) : Option Json :=
  s.objects.get? (slot R key)

/-- The stored JSON of an object that has to be there. -/
def value (s : Store) (R : Type) [Resource R] (key : Key) : Except StoreError Json :=
  (s.value? R key).elim (.error (notFound R key)) .ok

/-- The stored JSON of all objects of a kind, in order of their keys. -/
def values (s : Store) (R : Type) [Resource R] : List Json :=
  (s.objects.entries.filter (·.1.kind == Resource.kind R)).map Prod.snd

def get (s : Store) (R : Type) [Resource R] (key : Key) : Except StoreError R := do
  decode R (← s.value R key)

def list (s : Store) (R : Type) [Resource R] : Except StoreError (List R) :=
  (s.values R).mapM (decode R)

def count (s : Store) (R : Type) [Resource R] : Nat :=
  (s.values R).length

/-- Does a change to the object of a key. -/
def commit (s : Store) (key : Key) : Except StoreError (Change R) → Outcome R R
  | .error e => ⟨.error e, none, s⟩
  | .ok (.keep current) => ⟨.ok current, none, s⟩
  | .ok (.put next value) =>
    ⟨.ok next, some (.applied next), { s with objects := s.objects.insert (slot R key) value }⟩
  | .ok (.remove last) =>
    ⟨.ok last, some (.deleted last), { s with objects := s.objects.erase (slot R key) }⟩

/-- What keeps an object from being created under its key. -/
def identityFault? (object : R) : Option String :=
  let m := Resource.metadata object
  if Text.trim m.name = "" then some "name must not be empty"
  else if Resource.namespaced R && m.ns?.all (· == "") then
    some "namespaced kind requires a namespace"
  else if !Resource.namespaced R && m.ns?.isSome then
    some "cluster-scoped kind must not carry a namespace"
  else none

/-- A new object as it is first stored. -/
def stamped (object : R) (uid : String) (now : Time) : R :=
  Resource.withMetadata object { Resource.metadata object with
    uid, resourceVersion := 1, generation := 1, creationTime := some now, deletionTime := none }

def create (s : Store) (now : Time) (object : R) : Outcome R R :=
  let key := Resource.key object
  match identityFault? object with
  | some message =>
    let context := s!"Creating {Resource.kind R} '{key}'"
    s.commit key (.error { cause := .internal message, context := some context })
  | none =>
    match s.value? R key with
    | some _ => s.commit key (.error { cause := .alreadyExists (Resource.kind R) key })
    | none =>
      let new := stamped object (Uid.nth (s.issued + 1)) now
      commit { s with issued := s.issued + 1 } key ((encode new).map (.put new))

/-- Accepts a write only when it was made from the stored version. -/
def checkVersion (key : Key) (base current : R) : Except StoreError Unit :=
  let expected := (Resource.metadata base).resourceVersion
  let found := (Resource.metadata current).resourceVersion
  if expected = found then .ok ()
  else .error { cause := .conflict (Resource.kind R) key expected found }

/-- An object with the metadata that only the store may change taken from the stored one. -/
def withServerFields (object current : R) : R :=
  let kept := Resource.metadata current
  Resource.withMetadata object { Resource.metadata object with
    uid := kept.uid
    resourceVersion := kept.resourceVersion
    generation := kept.generation
    creationTime := kept.creationTime
    deletionTime := kept.deletionTime }

/-- A value with the member `status` of another one, or without it. -/
def carryStatus (target source : Json) : Json :=
  match source.member? "status" with
  | some status => target.setMember "status" status
  | none => target.dropMember "status"

/-- An object with its versions raised. -/
def raised (object : R) (specChanged : Bool) : R :=
  let m := Resource.metadata object
  Resource.withMetadata object { m with
    resourceVersion := m.resourceVersion + 1
    generation := if specChanged then m.generation + 1 else m.generation }

/-- Puts an object, or removes it when it is deleting and holds no finalizer. -/
def settle (next : R) : Except StoreError (Change R) :=
  let m := Resource.metadata next
  if m.isDeleting && m.finalizers.isEmpty then .ok (.remove next)
  else (encode next).map (.put next)

def planPatch (s : Store) (base mutated : R) : Except StoreError (Change R) := do
  let key := Resource.key base
  if Resource.key mutated ≠ key then
    throw {
      cause := .internal s!"Patch cannot move {key} to {Resource.key mutated}"
      context := some (Resource.kind R) }
  let value ← s.value R key
  let current ← decode R value
  checkVersion key base current
  let next := carryStatus (← encode (withServerFields mutated current)) value
  if next == value then return .keep current
  let specChanged := next.member? "spec" != value.member? "spec"
  if specChanged && Resource.immutableSpec R then
    throw { cause := .immutable (Resource.kind R) key "spec" }
  settle (raised (← decode R next) specChanged)

/-- Does to the stored object what was done to `base` to get `mutated`. The status and what only the
store may change stay. -/
def patch (s : Store) (base mutated : R) : Outcome R R :=
  s.commit (Resource.key base) (s.planPatch base mutated)

def planStatus (s : Store) (object : R) : Except StoreError (Change R) := do
  let key := Resource.key object
  let value ← s.value R key
  let current ← decode R value
  checkVersion key object current
  let next := carryStatus value (← encode object)
  if next == value then return .keep current
  let next := raised (← decode R next) false
  return .put next (← encode next)

/-- Replaces the status of the stored object and nothing else. -/
def updateStatus (s : Store) (object : R) : Outcome R R :=
  s.commit (Resource.key object) (s.planStatus object)

def planDelete (s : Store) (R : Type) [Resource R] (key : Key) (now : Time) :
    Except StoreError (Change R) := do
  let current ← decode R (← s.value R key)
  let m := Resource.metadata current
  if m.finalizers.isEmpty then return .remove current
  if m.isDeleting then return .keep current
  let next := raised (Resource.withMetadata current { m with deletionTime := some now }) false
  return .put next (← encode next)

/-- Removes an object, or marks it as deleting while it holds finalizers. -/
def delete (s : Store) (R : Type) [Resource R] (key : Key) (now : Time) : Outcome R Unit :=
  let outcome := s.commit key (s.planDelete R key now)
  { outcome with answer := outcome.answer.map (fun _ => ()) }

end Store

end Registrar
