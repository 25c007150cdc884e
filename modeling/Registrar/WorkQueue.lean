/-!
# The work queue

Keys wait in the order they were added. A key that waits is not added again, and one that is being
processed waits until that is done, so no two workers ever hold the same key.
-/

namespace Registrar

structure WorkQueue (κ : Type) where
  queue : List κ
  /-- The keys to be delivered: those that wait and those added while being processed. -/
  dirty : List κ
  processing : List κ
  stopping : Bool
  deriving DecidableEq

namespace WorkQueue

variable {κ : Type} [DecidableEq κ]

def empty : WorkQueue κ :=
  ⟨[], [], [], false⟩

instance : Inhabited (WorkQueue κ) :=
  ⟨empty⟩

/-- Whether adding a key puts it at the end of the queue. -/
def enqueues (q : WorkQueue κ) (k : κ) : Bool :=
  !q.stopping && !q.dirty.contains k && !q.processing.contains k

/-- Adds a key, unless it is to be delivered anyway or the queue is shut down. -/
def add (q : WorkQueue κ) (k : κ) : WorkQueue κ :=
  if q.stopping || q.dirty.contains k then q
  else if q.processing.contains k then { q with dirty := k :: q.dirty }
  else { q with queue := q.queue ++ [k], dirty := k :: q.dirty }

/-- Delivers the key that has waited longest. -/
def take? (q : WorkQueue κ) : Option (κ × WorkQueue κ) :=
  match q.queue with
  | [] => none
  | k :: rest => some (k, { q with
      queue := rest
      dirty := q.dirty.filter (· != k)
      processing := if q.processing.contains k then q.processing else k :: q.processing })

/-- Whether a key goes back to the queue once it is done. -/
def returns (q : WorkQueue κ) (k : κ) : Bool :=
  q.dirty.contains k

/-- Ends the processing of a key and lets it wait again if it was added meanwhile. -/
def done (q : WorkQueue κ) (k : κ) : WorkQueue κ :=
  let q := { q with processing := q.processing.filter (· != k) }
  if q.returns k then { q with queue := q.queue ++ [k] } else q

/-- From now on nothing is added; what is to be delivered still is. -/
def shutdown (q : WorkQueue κ) : WorkQueue κ :=
  { q with stopping := true }

def size (q : WorkQueue κ) : Nat :=
  q.queue.length

def isEmpty (q : WorkQueue κ) : Bool :=
  q.queue.isEmpty

def summary (q : WorkQueue κ) : String :=
  s!"WorkQueue \x7b queued: {q.queue.length}, processing: {q.processing.length}, "
    ++ s!"shutting_down: {q.stopping} \x7d"

end WorkQueue

end Registrar
