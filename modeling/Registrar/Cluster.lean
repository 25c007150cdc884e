import Registrar.Bus
import Registrar.Store.Call

/-!
# A cluster in memory

A store with a clock, and a bus on which every change is told under the kind of the object.
-/

namespace Registrar

structure Cluster where
  store : Store
  bus : Bus String (WatchEvent Json)
  now : Time

namespace Cluster

variable {R α β : Type} [Resource R]

/-- An object as it is told on the bus. -/
def wire (object : R) : Json :=
  (Resource.encode object).toOption.getD .null

/-- Tells a change to those who watch the kind. -/
def publish (c : Cluster) (event : WatchEvent R) : Cluster :=
  { c with bus := (c.bus.publish (Resource.kind R) (event.map wire)).2 }

/-- Takes over the store that a write left and tells what it did. -/
def settle (c : Cluster) (o : Store.Outcome R α) : Except StoreError α × Cluster :=
  let c := { c with store := o.store }
  (o.answer, o.event.elim c c.publish)

def perform : Call β → Cluster → Except StoreError β × Cluster
  | @Call.get R _ key, c => (c.store.get R key, c)
  | @Call.list R _, c => (c.store.list R, c)
  | @Call.create _ _ object, c => c.settle (c.store.create c.now object)
  | @Call.patch _ _ base mutated, c => c.settle (c.store.patch base mutated)
  | @Call.updateStatus _ _ object, c => c.settle (c.store.updateStatus object)
  | @Call.delete R _ key, c => c.settle (c.store.delete R key c.now)

def access : Access Cluster where
  perform := perform
  now := now

end Cluster

end Registrar
