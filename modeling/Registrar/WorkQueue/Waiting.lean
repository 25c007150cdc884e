import Registrar.WorkQueue

/-!
# Waiting for work

Tasks that want a key register first and look into the queue afterwards, so that a key added in
between wakes them. A key that enters the queue wakes the task registered longest or, if there is
none, leaves a wake-up behind for the next one; shutting down wakes everyone.
-/

namespace Registrar

namespace WorkQueue

/-- A wake-up that a task has got. -/
inductive Wakeup where
  /-- One left behind, taken on registering. -/
  | kept
  /-- One meant for a single task. A task that did not need it passes it on. -/
  | single
  /-- One that all tasks got. -/
  | everyone
  deriving DecidableEq

/-- How far a task has come. -/
inductive Phase (κ : Type) where
  | arriving
  /-- It is going to look into the queue, with the wake-up it has got, if any. -/
  | looking (wakeup : Option Wakeup)
  | parked
  /-- It has been woken. -/
  | woken (wakeup : Wakeup)
  /-- It has got a key, or nothing because the queue is shut down, and gives up its registration
  next, or the wake-up it has got. -/
  | leaving (key : Option κ) (wakeup : Option Wakeup)
  | served (key : Option κ)
  deriving DecidableEq

namespace Phase

variable {κ : Type}

/-- What a task that has registered has got since. -/
def wakeup? : Phase κ → Option (Option Wakeup)
  | .looking u | .leaving _ u => some u
  | .parked => some none
  | .woken u => some (some u)
  | .arriving | .served _ => none

/-- How far a task has come once it is woken. -/
def wake (u : Wakeup) : Phase κ → Phase κ
  | .looking none => .looking (some u)
  | .leaving key none => .leaving key (some u)
  | .parked => .woken u
  | p => p

end Phase

/-- A queue and the tasks that want its keys. -/
structure Waiting (κ ω : Type) where
  queue : WorkQueue κ
  /-- Whether a wake-up has been left behind. -/
  permit : Bool
  /-- The tasks registered and not woken, the longest first. -/
  registered : List ω
  tasks : List (ω × Phase κ)

namespace Waiting

variable {κ ω : Type} [DecidableEq κ] [DecidableEq ω]

def start : Waiting κ ω :=
  ⟨.empty, false, [], []⟩

def phase? (w : Waiting κ ω) (t : ω) : Option (Phase κ) :=
  w.tasks.lookup t

def setPhase (w : Waiting κ ω) (t : ω) (p : Phase κ) : Waiting κ ω :=
  { w with tasks := w.tasks.map (fun e => if e.1 = t then (t, p) else e) }

def wake (w : Waiting κ ω) (t : ω) (u : Wakeup) : Waiting κ ω :=
  match w.phase? t with
  | some p => w.setPhase t (p.wake u)
  | none => w

/-- Wakes the task registered longest, or leaves the wake-up behind. -/
def wakeOne (w : Waiting κ ω) : Waiting κ ω :=
  match w.registered with
  | [] => { w with permit := true }
  | t :: rest => wake { w with registered := rest } t .single

def wakeAll (w : Waiting κ ω) : Waiting κ ω :=
  w.registered.foldl (fun w t => w.wake t .everyone) { w with registered := [] }

def add (w : Waiting κ ω) (k : κ) : Waiting κ ω :=
  let after := { w with queue := w.queue.add k }
  if w.queue.enqueues k then after.wakeOne else after

def done (w : Waiting κ ω) (k : κ) : Waiting κ ω :=
  let after := { w with queue := w.queue.done k }
  if w.queue.returns k then after.wakeOne else after

def shutdown (w : Waiting κ ω) : Waiting κ ω :=
  wakeAll { w with queue := w.queue.shutdown }

/-- A task comes to get a key. -/
def arrive (w : Waiting κ ω) (t : ω) : Waiting κ ω :=
  { w with tasks := w.tasks ++ [(t, .arriving)] }

/-- An arriving task registers, or takes the wake-up left behind. -/
def register (w : Waiting κ ω) (t : ω) : Waiting κ ω :=
  if w.permit then setPhase { w with permit := false } t (.looking (some .kept))
  else setPhase { w with registered := w.registered ++ [t] } t (.looking none)

/-- A task gives up its registration, or passes on a wake-up that it did not need. -/
def leave (w : Waiting κ ω) (t : ω) : Option Wakeup → Waiting κ ω
  | none => { w with registered := w.registered.filter (· != t) }
  | some .single => w.wakeOne
  | some _ => w

/-- A registered task looks into the queue and takes a key, ends, or goes to sleep. -/
def look (w : Waiting κ ω) (t : ω) (u : Option Wakeup) : Waiting κ ω :=
  match w.queue.take? with
  | some (k, queue) => setPhase { w with queue } t (.leaving (some k) u)
  | none =>
    if w.queue.stopping then w.setPhase t (.leaving none u)
    else match u with
      | none => w.setPhase t .parked
      | some _ => w.setPhase t .arriving

/-- A task goes on until it sleeps or is served. -/
def step? (w : Waiting κ ω) (t : ω) : Option (Waiting κ ω) :=
  match w.phase? t with
  | some .arriving => some (w.register t)
  | some (.looking u) => some (w.look t u)
  | some (.woken _) => some (w.setPhase t .arriving)
  | some (.leaving key u) => some ((w.setPhase t (.served key)).leave t u)
  | some .parked | some (.served _) | none => none

def remove (w : Waiting κ ω) (t : ω) : Waiting κ ω :=
  { w with tasks := w.tasks.filter (·.1 != t) }

/-- Takes a task away; a wake-up it has got and did not need is passed on. -/
def cancel (w : Waiting κ ω) (t : ω) : Waiting κ ω :=
  match (w.phase? t).bind Phase.wakeup? with
  | some u => (w.remove t).leave t u
  | none => w.remove t

/-- Lets a task go on for at most so many steps. -/
def runTask (fuel : Nat) (w : Waiting κ ω) (t : ω) : Waiting κ ω :=
  match fuel with
  | 0 => w
  | fuel + 1 =>
    match w.step? t with
    | some after => runTask fuel after t
    | none => w

/-- Lets the tasks go on in the given order, each until it sleeps or is served. From any phase that
takes at most six steps. -/
def run (w : Waiting κ ω) (order : List ω) : Waiting κ ω :=
  order.foldl (runTask 8) w

end Waiting

end WorkQueue

end Registrar
