import Registrar.Controller
import Registrar.Proofs.Passes.Listing

/-!
# Passes alone with a failing store

A port is a store that a pass has to itself. Any of its calls may fail, and then has no effect; the
others are answered, and what they tell is kept. A pass that ends without an error has had each of
its parts end without one (`exec_bind_ok`), and what was told stays told (`told_run`).
-/

namespace Registrar

open Resource Parts

namespace Store

variable {β : Type}

/-- An event as it is told on the bus, with the kind of its object. -/
def announced {R : Type} [Resource R] (event : Option (WatchEvent R)) :
    Option (String × WatchEvent Json) :=
  event.map fun e => (Resource.kind R, e.map Cluster.wire)

/-- What a call tells. -/
def told (s : Store) (now : Time) : Call β → Option (String × WatchEvent Json)
  | @Call.get _ _ _ | @Call.list _ _ => none
  | @Call.create _ _ object => announced (s.create now object).event
  | @Call.patch _ _ base mutated => announced (s.patch base mutated).event
  | @Call.updateStatus _ _ object => announced (s.updateStatus object).event
  | @Call.delete R _ key => announced (s.delete R key now).event

end Store

theorem Cluster.settle_eq {R α : Type} [Resource R] (w : Cluster) (o : Store.Outcome R α) :
    w.settle o = (o.answer, { w with
      store := o.store
      bus := (Store.announced o.event).elim w.bus fun e => (w.bus.publish e.1 e.2).2 }) := by
  rw [settle]
  rcases o.event with _ | event <;> rfl

/-- A cluster publishes just what its store's calls tell. -/
theorem Cluster.perform_eq_told {β : Type} (w : Cluster) (c : Call β) :
    Cluster.perform c w = ((w.store.perform w.now c).1, { w with
      store := (w.store.perform w.now c).2
      bus := (w.store.told w.now c).elim w.bus fun e => (w.bus.publish e.1 e.2).2 }) := by
  cases c with
  | get R key => rfl
  | list R => rfl
  | create object => exact settle_eq w _
  | patch base mutated => exact settle_eq w _
  | updateStatus object => exact settle_eq w _
  | delete R key => exact settle_eq w _

/-- The keys that the controller makes a pass over for an event. -/
def Controller.calledFor (e : String × WatchEvent Json) : List Key :=
  if e.1 = Resource.kind Registration then eventKeys (fun r : Registration => [Resource.key r]) e.2
  else if e.1 = Resource.kind Domain then eventKeys Domain.registrationKeys e.2
  else []

theorem Controller.calledFor_registration (event : WatchEvent Registration) :
    calledFor (kind Registration, event.map Cluster.wire) = [Resource.key event.object] := by
  have hdecode : Resource.decode (event.map Cluster.wire).object = .ok event.object := by
    cases event <;> exact Parts.decode_json (R := Registration) _
  rw [calledFor, if_pos rfl, eventKeys, hdecode]

theorem Controller.calledFor_domain (event : WatchEvent Domain) :
    calledFor (kind Domain, event.map Cluster.wire) = event.object.registrationKeys := by
  have hdecode : Resource.decode (event.map Cluster.wire).object = .ok event.object := by
    cases event <;> exact Parts.decode_json (R := Domain) _
  rw [calledFor, if_neg (show kind Domain ≠ kind Registration by decide), if_pos rfl, eventKeys,
    hdecode]

/-- A store whose calls may fail, each by its number, and what has been told. -/
structure Port where
  store : Store
  now : Time
  failures : Nat → Option StoreError
  calls : Nat := 0
  told : List (String × WatchEvent Json) := []

namespace Port

variable {α β : Type}

/-- The port after a call without effect. -/
def skip (w : Port) : Port :=
  { w with calls := w.calls + 1 }

def perform (c : Call β) (w : Port) : Except StoreError β × Port :=
  match w.failures w.calls with
  | some e => (.error e, w.skip)
  | none => ((w.store.perform w.now c).1, { w.skip with
      store := (w.store.perform w.now c).2
      told := w.told ++ (w.store.told w.now c).toList })

def access : Access Port where
  perform := perform
  now := now

/-- Something was told that calls for a pass over a key. -/
def CallsFor (w : Port) (key : Key) : Prop :=
  ∃ e ∈ w.told, key ∈ Controller.calledFor e

theorem perform_fails {w : Port} {e : StoreError} (h : w.failures w.calls = some e) (c : Call β) :
    w.perform c = (.error e, w.skip) := by
  rw [perform, h]

theorem perform_answers {w : Port} (h : w.failures w.calls = none) (c : Call β) :
    w.perform c = ((w.store.perform w.now c).1, { w.skip with
      store := (w.store.perform w.now c).2
      told := w.told ++ (w.store.told w.now c).toList }) := by
  rw [perform, h]

/-- A call leaves the clock and the failures to come, and adds to what has been told. -/
structure Before (w w' : Port) : Prop where
  now_eq : w'.now = w.now
  failures_eq : w'.failures = w.failures
  told_prefix : w.told <+: w'.told

theorem Before.refl (w : Port) : w.Before w :=
  ⟨rfl, rfl, List.prefix_refl _⟩

theorem Before.trans {u v w : Port} (h : u.Before v) (h' : v.Before w) : u.Before w :=
  ⟨h'.now_eq.trans h.now_eq, h'.failures_eq.trans h.failures_eq, h.told_prefix.trans h'.told_prefix⟩

theorem before_perform (w : Port) (c : Call β) : w.Before (w.perform c).2 := by
  rcases h : w.failures w.calls with _ | e
  · rw [perform_answers h]
    exact ⟨rfl, rfl, List.prefix_append _ _⟩
  · rw [perform_fails h]
    exact ⟨rfl, rfl, List.prefix_refl _⟩

theorem before_run : ∀ (p : Program α) (w : Port), w.Before (p.run access w).2
  | .done _, w => .refl w
  | .call c next, w =>
    (before_perform w c).trans (before_run (next (w.perform c).1) (w.perform c).2)
  | .clock next, w => before_run (next w.now) w

theorem CallsFor.later {w w' : Port} {key : Key} (h : w.CallsFor key) (hw : w.Before w') :
    w'.CallsFor key := by
  obtain ⟨e, he, hkey⟩ := h
  exact ⟨e, hw.told_prefix.subset he, hkey⟩

/-- Some call fails sooner or later. -/
def Fails (w : Port) : Prop :=
  ∃ n e, w.failures n = some e

/-- A port on which no call fails. -/
def calm (store : Store) (now : Time) : Port where
  store := store
  now := now
  failures := fun _ => none

theorem not_fails_calm (store : Store) (now : Time) : ¬(calm store now).Fails := by
  rintro ⟨n, e, h⟩
  simp [calm] at h

/-- Calls have been made, but none that had an effect. -/
structure Untouched (w w' : Port) : Prop where
  store_eq : w'.store = w.store
  told_eq : w'.told = w.told
  failures_eq : w'.failures = w.failures

theorem Untouched.refl (w : Port) : w.Untouched w :=
  ⟨rfl, rfl, rfl⟩

theorem Untouched.skip (w : Port) : w.Untouched w.skip :=
  ⟨rfl, rfl, rfl⟩

theorem Untouched.trans {u v w : Port} (h : u.Untouched v) (h' : v.Untouched w) : u.Untouched w :=
  ⟨h'.store_eq.trans h.store_eq, h'.told_eq.trans h.told_eq, h'.failures_eq.trans h.failures_eq⟩

/-- The port after a call that led to another store and was told. -/
def tell {R : Type} [Resource R] (w : Port) (s : Store) (event : WatchEvent R) : Port :=
  { w.skip with
    store := s
    told := w.told ++ [(Resource.kind R, event.map Cluster.wire)] }

end Port

namespace Pass

variable {α β : Type} {w w' : Port}

/-- The result of a pass on a port, and the port after it. -/
def exec (p : Pass α) (w : Port) : Except PassError α × Port :=
  Program.run Port.access p.run w

theorem before_exec (p : Pass α) (w : Port) : w.Before (p.exec w).2 :=
  Port.before_run p.run w

theorem exec_eq {p : Pass α} {answer : Except PassError α} (h : (p.exec w).1 = answer) :
    p.exec w = (answer, (p.exec w).2) :=
  Prod.ext h rfl

@[simp] theorem exec_pure (a : α) (w : Port) : (pure a : Pass α).exec w = (.ok a, w) :=
  rfl

@[simp] theorem exec_throw (e : PassError) (w : Port) : (throw e : Pass α).exec w = (.error e, w) :=
  rfl

theorem exec_bind (p : Pass α) (f : α → Pass β) (w : Port) :
    (p >>= f).exec w = match p.exec w with
      | (.ok a, w') => (f a).exec w'
      | (.error e, w') => (.error e, w') := by
  refine (Program.run_bind Port.access p.run (ExceptT.bindCont f) w).trans ?_
  change Program.run Port.access (ExceptT.bindCont f (p.exec w).1) (p.exec w).2 = _
  rcases p.exec w with ⟨e | a, w'⟩ <;> rfl

theorem exec_ask (c : Call β) (w : Port) :
    (ask c).exec w = (.ok (w.perform c).1, (w.perform c).2) :=
  rfl

theorem exec_map (p : Pass α) (f : α → β) (w : Port) :
    (do return f (← p) : Pass β).exec w = ((p.exec w).1.map f, (p.exec w).2) := by
  rw [exec_bind]
  rcases p.exec w with ⟨e | a, w'⟩ <;> rfl

theorem exec_require (c : Call β) (context : String) (w : Port) : (require c context).exec w
    = ((w.perform c).1.mapError (PassError.ofStore · context), (w.perform c).2) := by
  rw [require, exec_bind, exec_ask]
  rcases (w.perform c).1 with e | a <;> simp [Except.mapError]

theorem exec_now (w : Port) : now.exec w = (.ok w.now, w) :=
  rfl

theorem exec_lift (p : Program α) (w : Port) :
    exec (ExceptT.lift p) w = (.ok (p.run Port.access w).1, (p.run Port.access w).2) :=
  Program.run_bind Port.access p (fun a => Program.done (Except.ok a : Except PassError α)) w

theorem exec_attempt (p : Pass α) (w : Port) :
    (attempt p).exec w = (.ok (p.exec w).1, (p.exec w).2) :=
  exec_lift p.run w

end Pass

end Registrar
