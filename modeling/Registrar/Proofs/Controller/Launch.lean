import Registrar.Proofs.Controller.Pool
import Registrar.Proofs.Passes.Calls
import Registrar.Proofs.Passes.Port

/-!
# Starting a controller among others

A controller starts in three steps: it subscribes to registrations, then to domains, and lists the
registrations. With nothing in between they are the start of the controller (`start_eq_advance`).
Here clients make requests between them and later, on the same cluster, the tasks of the controller
go on in any order, and others use the bus.
-/

namespace Registrar

open Resource

/-- How far the start of a controller has come. -/
inductive Launch : Type 1 where
  | fresh
  /-- It watches registrations. -/
  | half (registrations : Nat)
  /-- It watches both kinds and has not listed the registrations yet. -/
  | subscribed (registrations domains : Nat)
  | running (c : Controller)
  | failed (e : PassError)

namespace Launch

/-- What a controller is started with. -/
structure Plan where
  reconciler : Reconciler
  workers : Nat
  retryDelay : Nat

variable {σ : Type}

/-- The next step of a start. -/
def advance (b : Backend σ) (plan : Plan) (w : Launch × σ) : Launch × σ :=
  match w.1 with
  | .fresh =>
    if plan.workers = 0 then (.failed ⟨.internal "at least one worker is required", none⟩, w.2)
    else match Controller.subscribe b Registration "Subscribing to registration events" w.2 with
      | .error e => (.failed e, w.2)
      | .ok (registrations, s) => (.half registrations, s)
  | .half registrations =>
    match Controller.subscribe b Domain "Subscribing to domain events" w.2 with
    | .error e => (.failed e, Controller.unsubscribe b registrations w.2)
    | .ok (domains, s) => (.subscribed registrations domains, s)
  | .subscribed registrations domains =>
    match Controller.listKeys.run b.toAccess w.2 with
    | (.error e, s) => (.failed (.ofStore e "Initial registration sync"),
        Controller.unsubscribe b registrations (Controller.unsubscribe b domains s))
    | (.ok keys, s) =>
      (.running ((Controller.fresh plan.reconciler plan.retryDelay registrations domains
        plan.workers).addAll keys), s)
  | .running _ | .failed _ => w

/-- How a start ends. -/
def ofStart : Except PassError Controller → Launch
  | .ok c => .running c
  | .error e => .failed e

/-- The steps of a start, one right after the other, are the start. -/
theorem start_eq_advance (b : Backend σ) (plan : Plan) (s : σ) :
    advance b plan (advance b plan (advance b plan (.fresh, s)))
      = (ofStart (Controller.start b plan.reconciler plan.workers plan.retryDelay s).1,
        (Controller.start b plan.reconciler plan.workers plan.retryDelay s).2) := by
  unfold Controller.start
  by_cases hworkers : plan.workers = 0
  · simp [advance, hworkers, ofStart]
  · simp only [advance, hworkers, if_false]
    rcases Controller.subscribe b Registration "Subscribing to registration events" s
      with e | ⟨registrations, s⟩
    · rfl
    · dsimp only
      rcases Controller.subscribe b Domain "Subscribing to domain events" s with e | ⟨domains, s⟩
      · rfl
      · dsimp only
        rcases Controller.listKeys.run b.toAccess s with ⟨e | keys, s⟩ <;> rfl

/-- The receivers of the watches. -/
def receivers : Launch → List Nat
  | .fresh | .failed _ => []
  | .half registrations => [registrations]
  | .subscribed registrations domains => [registrations, domains]
  | .running c => c.registrations.toList ++ c.domains.toList

/-- The receivers of both watches, once both are there. -/
def watches? : Launch → Option (Nat × Nat)
  | .fresh | .half _ | .failed _ => none
  | .subscribed registrations domains => some (registrations, domains)
  | .running c => c.registrations.bind fun r => c.domains.map (r, ·)

/-- What may happen next. -/
inductive Move where
  /-- The start goes on. -/
  | advance
  | watchRegistrations
  | watchDomains
  /-- A worker goes on, at a time. -/
  | work (i now : Nat)
  /-- Delayed keys that are due are added. -/
  | expire (now : Nat)
  /-- A client makes a request. -/
  | request (r : Request)
  | clock (now : Time)
  /-- Others use the bus. -/
  | subscribe (topic : String) (capacity : Option Nat)
  | receive (id : Nat)
  | drop (id : Nat)

/-- A step of a task of a running controller, if it can go on. -/
def going (w : Launch × Cluster) (step? : Controller → Option (Controller × Cluster)) :
    Launch × Cluster :=
  match w.1 with
  | .running c => (step? c).elim w fun next => (.running next.1, next.2)
  | .fresh | .half _ | .subscribed _ _ | .failed _ => w

/-- Others use the bus, but not the receivers of the watches. -/
def sharing (w : Launch × Cluster) (id : Nat) (bus : Bus String (WatchEvent Json)) :
    Launch × Cluster :=
  if id ∈ w.1.receivers then w else (w.1, { w.2 with bus })

def step (plan : Plan) (w : Launch × Cluster) : Move → Launch × Cluster
  | .advance => advance Cluster.backend plan w
  | .watchRegistrations => going w (·.watchRegistrations? Cluster.backend w.2)
  | .watchDomains => going w (·.watchDomains? Cluster.backend w.2)
  | .work i now => going w (·.work? Cluster.backend now i w.2)
  | .expire now => going w fun c => some (c.expire now, w.2)
  | .request r => (w.1, (Cluster.perform r.call w.2).2)
  | .clock now => (w.1, { w.2 with now })
  | .subscribe topic capacity =>
    match w.2.bus.subscribe topic capacity with
    | .ok (_, bus) => (w.1, { w.2 with bus })
    | .error _ => w
  | .receive id => sharing w id (w.2.bus.receive id).2
  | .drop id => sharing w id (w.2.bus.drop id)

def run (plan : Plan) (w : Launch × Cluster) (moves : List Move) : Launch × Cluster :=
  moves.foldl (step plan) w

/-- What a move tells: what the call tells that a client or a pass makes. -/
def told (w : Launch × Cluster) : Move → Option (String × WatchEvent Json)
  | .request r => w.2.store.told w.2.now r.call
  | .work i _ =>
    match w.1 with
    | .running c =>
      match c.workers[i]? with
      | some (.busy _ (.call call _)) => w.2.store.told w.2.now call
      | _ => none
    | _ => none
  | _ => none

/-- The keys that a watch adds for what its receiver has to read. -/
def heard {R : Type} [Resource R] (keys : R → List Key) (receiver : Nat) (s : Cluster) :
    List Key :=
  match (s.bus.receive receiver).1 with
  | .event e => Controller.eventKeys keys e
  | .lagged _ => ((s.store.list Registration).toOption.getD []).map key
  | .empty | .closed => []

/-- The keys that a move adds because of what a watch reads, or because a start lists them. -/
def added (w : Launch × Cluster) : Move → List Key
  | .advance =>
    match w.1 with
    | .subscribed _ _ => ((w.2.store.list Registration).toOption.getD []).map key
    | _ => []
  | .watchRegistrations =>
    match w.1 with
    | .running c =>
      c.registrations.elim [] fun receiver =>
        heard (fun r : Registration => [Resource.key r]) receiver w.2
    | _ => []
  | .watchDomains =>
    match w.1 with
    | .running c => c.domains.elim [] fun receiver => heard Domain.registrationKeys receiver w.2
    | _ => []
  | _ => []

end Launch

end Registrar
