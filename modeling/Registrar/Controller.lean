import Registrar.Cluster
import Registrar.Reconcile
import Registrar.WorkQueue

/-!
# The controller

Two watches feed a work queue and a pool of workers drains it. A change of a registration calls for a
pass over it, a change of a domain for a pass over each registration it lists. A watch that lost
events asks for a pass over every registration, so a lost event costs passes but no change is missed.
-/

namespace Registrar

/-- An access to a store, with the bus on which its changes are told. -/
structure Backend (σ : Type) : Type 1 extends Access σ where
  bus : σ → Bus String (WatchEvent Json)
  setBus : Bus String (WatchEvent Json) → σ → σ

def Cluster.backend : Backend Cluster where
  toAccess := Cluster.access
  bus := Cluster.bus
  setBus bus c := { c with bus }

/-- How far a worker has come. -/
inductive Worker : Type 1 where
  | idle
  /-- It goes through a pass over a key. -/
  | busy (key : Key) (rest : Program (Except PassError Outcome))
  /-- The pass is over, and the key is still held. -/
  | finishing (key : Key)
  | ended

structure Controller : Type 1 where
  reconciler : Reconciler
  /-- After how long a failed pass is tried again. -/
  retryDelay : Nat
  queue : WorkQueue Key
  /-- The keys to be added later, with the time when each is due. -/
  delayed : List (Nat × Key)
  /-- The receiver of each watch that has not ended. -/
  registrations : Option Nat
  domains : Option Nat
  /-- Whether the watches have been told to end. -/
  stopping : Bool
  workers : List Worker

namespace Controller

variable {σ R : Type} [Resource R]

def listKeys : Program (Except StoreError (List Key)) :=
  .call (.list Registration) fun answer => .done (answer.map (·.map Resource.key))

def addAll (c : Controller) (keys : List Key) : Controller :=
  { c with queue := keys.foldl WorkQueue.add c.queue }

def subscribe (b : Backend σ) (R : Type) [Resource R] (context : String) (s : σ) :
    Except PassError (Nat × σ) :=
  match (b.bus s).subscribe (Resource.kind R) none with
  | .ok (receiver, bus) => .ok (receiver, b.setBus bus s)
  | .error e => .error ⟨.events e, some context⟩

def unsubscribe (b : Backend σ) (receiver : Nat) (s : σ) : σ :=
  b.setBus ((b.bus s).drop receiver) s

/-- Starts a controller: it watches first and lists the registrations afterwards. -/
def start (b : Backend σ) (reconciler : Reconciler) (workers retryDelay : Nat) (s : σ) :
    Except PassError Controller × σ :=
  if workers = 0 then (.error ⟨.internal "at least one worker is required", none⟩, s)
  else match subscribe b Registration "Subscribing to registration events" s with
    | .error e => (.error e, s)
    | .ok (registrations, s) =>
      match subscribe b Domain "Subscribing to domain events" s with
      | .error e => (.error e, unsubscribe b registrations s)
      | .ok (domains, s) =>
        match listKeys.run b.toAccess s with
        | (.error e, s) =>
          (.error (.ofStore e "Initial registration sync"),
            unsubscribe b registrations (unsubscribe b domains s))
        | (.ok keys, s) =>
          let c : Controller := {
            reconciler
            retryDelay
            queue := .empty
            delayed := []
            registrations := some registrations
            domains := some domains
            stopping := false
            workers := List.replicate workers .idle }
          (.ok (c.addAll keys), s)

def endWatches (c : Controller) : Controller :=
  { c with stopping := true }

/-- Tells the watches to end and the workers to finish what is to be delivered. -/
def shutdown (c : Controller) : Controller :=
  { c.endWatches with queue := c.queue.shutdown }

/-- The keys that an event calls for. -/
def eventKeys (keys : R → List Key) (event : WatchEvent Json) : List Key :=
  match Resource.decode event.object with
  | .ok object => keys object
  | .error _ => []

/-- What a watch does with what it has received, and whether it ends; nothing when it has to wait. -/
def watch (b : Backend σ) (keys : R → List Key) (receiver : Nat) (c : Controller) (s : σ) :
    Option (Controller × σ × Bool) :=
  if c.stopping then some (c, s, true)
  else
    let (received, bus) := (b.bus s).receive receiver
    let s := b.setBus bus s
    match received with
    | .event event => some (c.addAll (eventKeys keys event), s, false)
    | .lagged _ =>
      match listKeys.run b.toAccess s with
      | (.ok keys, s) => some (c.addAll keys, s, false)
      | (.error _, s) => some (c, s, false)
    | .closed => some (c, s, true)
    | .empty => none

def watchRegistrations? (b : Backend σ) (c : Controller) (s : σ) : Option (Controller × σ) :=
  match c.registrations with
  | none => none
  | some receiver =>
    match watch b (fun r : Registration => [Resource.key r]) receiver c s with
    | none => none
    | some (c, s, false) => some (c, s)
    | some (c, s, true) => some ({ c with registrations := none }, unsubscribe b receiver s)

def watchDomains? (b : Backend σ) (c : Controller) (s : σ) : Option (Controller × σ) :=
  match c.domains with
  | none => none
  | some receiver =>
    match watch b Domain.registrationKeys receiver c s with
    | none => none
    | some (c, s, false) => some (c, s)
    | some (c, s, true) => some ({ c with domains := none }, unsubscribe b receiver s)

/-- Lets a key be added after a delay, at once when there is none. -/
def addAfter (c : Controller) (key : Key) (now delay : Nat) : Controller :=
  if delay = 0 then { c with queue := c.queue.add key }
  else { c with delayed := c.delayed ++ [(now + delay, key)] }

/-- Sees to it that what a pass left to do is done. -/
def follow (c : Controller) (key : Key) (now : Nat) : Except PassError Outcome → Controller
  | .ok .done => c
  | .ok .requeue => { c with queue := c.queue.add key }
  | .error _ => c.addAfter key now c.retryDelay

def setWorker (c : Controller) (i : Nat) (w : Worker) : Controller :=
  { c with workers := c.workers.set i w }

/-- A step of a worker at a time. -/
def work? (b : Backend σ) (now i : Nat) (c : Controller) (s : σ) : Option (Controller × σ) :=
  match c.workers[i]? with
  | some .idle =>
    match c.queue.take? with
    | some (key, queue) =>
      let c := { c with queue }
      some (c.setWorker i (.busy key (c.reconciler.reconcile key).run), s)
    | none => if c.queue.stopping then some (c.setWorker i .ended, s) else none
  | some (.busy key (.done result)) => some ((c.follow key now result).setWorker i (.finishing key), s)
  | some (.busy key (.call call next)) =>
    let (answer, s) := b.perform call s
    some (c.setWorker i (.busy key (next answer)), s)
  | some (.busy key (.clock next)) => some (c.setWorker i (.busy key (next (b.now s))), s)
  | some (.finishing key) => some ({ c with queue := c.queue.done key }.setWorker i .idle, s)
  | some .ended | none => none

def expire (c : Controller) (now : Nat) : Controller :=
  let (due, rest) := c.delayed.partition (·.1 ≤ now)
  { c with delayed := rest }.addAll (due.map Prod.snd)

end Controller

end Registrar
