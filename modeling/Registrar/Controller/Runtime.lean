import Registrar.Controller

/-!
# Running controllers

The tasks of a controller take turns: first the watches read what there is, then the workers go on
until nothing is queued. Time passes from one retry that is due to the next, and at each the tasks go
on until all of them wait.
-/

namespace Registrar

/-- A state and the controllers that run on it, the latest last. -/
structure Runtime (σ : Type) : Type 1 where
  state : σ
  controllers : List Controller
  /-- Whether the latest controller may still be stopped. -/
  running : Bool
  elapsed : Nat

namespace Controller

variable {σ : Type}

/-- A step of the first worker that can go on. -/
def workAny? (b : Backend σ) (now : Nat) (c : Controller) (s : σ) : Option (Controller × σ) :=
  (List.range c.workers.length).findSome? fun i => c.work? b now i s

/-- Repeats a step until it has to wait, for at most so many times. -/
def repeated (step? : Controller → σ → Option (Controller × σ)) :
    Nat → Controller → σ → Controller × σ
  | 0, c, s => (c, s)
  | fuel + 1, c, s =>
    match step? c s with
    | some (c, s) => repeated step? fuel c s
    | none => (c, s)

/-- A turn of each task, if any of them can go on. -/
def turn? (b : Backend σ) (fuel now : Nat) (c : Controller) (s : σ) : Option (Controller × σ) :=
  let step? (c : Controller) (s : σ) : Option (Controller × σ) :=
    ((c.watchRegistrations? b s).or (c.watchDomains? b s)).or (c.workAny? b now s)
  if (step? c s).isNone then none
  else
    let (c, s) := repeated (fun c s => c.watchRegistrations? b s) fuel c s
    let (c, s) := repeated (fun c s => c.watchDomains? b s) fuel c s
    some (repeated (fun c s => c.workAny? b now s) fuel c s)

end Controller

namespace Runtime

variable {σ : Type}

def begin (state : σ) : Runtime σ :=
  ⟨state, [], false, 0⟩

/-- The most turns between two moments. -/
def fuel : Nat :=
  100000

def turns (b : Backend σ) (r : Runtime σ) : Option (Runtime σ) :=
  let turn (acc : List Controller × σ × Bool) (c : Controller) : List Controller × σ × Bool :=
    let (done, s, moved) := acc
    match c.turn? b fuel r.elapsed s with
    | some (c, s) => (done ++ [c], s, true)
    | none => (done ++ [c], s, moved)
  let (controllers, state, moved) := r.controllers.foldl turn ([], r.state, false)
  if moved then some { r with controllers, state } else none

/-- Lets all tasks go on until each has to wait. -/
def settle (b : Backend σ) : Nat → Runtime σ → Runtime σ
  | 0, r => r
  | fuel + 1, r =>
    match r.turns b with
    | some r => settle b fuel r
    | none => r

def nextDue? (r : Runtime σ) : Option Nat :=
  ((r.controllers.map (fun c => c.delayed.map Prod.fst)).flatten).min?

/-- Lets time pass up to a moment. -/
def advanceTo (b : Backend σ) (target : Nat) : Nat → Runtime σ → Runtime σ
  | 0, r => r
  | n + 1, r =>
    let r := r.settle b fuel
    match r.nextDue? with
    | some due =>
      if due ≤ target then
        let now := max due r.elapsed
        advanceTo b target n
          { r with elapsed := now, controllers := r.controllers.map (·.expire now) }
      else { r with elapsed := target }
    | none => { r with elapsed := target }

def advance (b : Backend σ) (r : Runtime σ) (span : Nat) : Runtime σ :=
  (r.advanceTo b (r.elapsed + span) fuel).settle b fuel

def pending? (r : Runtime σ) : Option Nat :=
  if r.running then r.controllers.getLast?.map (·.queue.size) else none

/-- Starts a controller in place of the one that runs, whose watches end. -/
def start (b : Backend σ) (r : Runtime σ) (reconciler : Reconciler) (workers retryDelay : Nat) :
    Except PassError Unit × Runtime σ :=
  match Controller.start b reconciler workers retryDelay r.state with
  | (.error e, state) => (.error e, { r with state })
  | (.ok c, state) =>
    (.ok (), { r with
      state
      controllers := r.controllers.map (·.endWatches) ++ [c]
      running := true })

/-- Stops the controller that runs and lets it finish. -/
def stop (b : Backend σ) (r : Runtime σ) : Runtime σ :=
  if r.running then
    match r.controllers.getLast? with
    | some c =>
      settle b fuel { r with
        controllers := r.controllers.dropLast ++ [c.shutdown]
        running := false }
    | none => r
  else r

end Runtime

end Registrar
