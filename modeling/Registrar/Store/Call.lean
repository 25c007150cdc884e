import Registrar.Store

/-!
# Calls and programs

What the passes do to a store is written as a program of calls, one atomic step each. A program knows
of the store only the answers it gets, so it can be run through any access to one: to a store alone, to
one whose calls fail at will, or one step at a time among other programs.
-/

namespace Registrar

/-- A call of a store, by the type of what it answers. -/
inductive Call : Type → Type 1 where
  | get (R : Type) [Resource R] (key : Key) : Call R
  | list (R : Type) [Resource R] : Call (List R)
  | create {R : Type} [Resource R] (object : R) : Call R
  | patch {R : Type} [Resource R] (base mutated : R) : Call R
  | updateStatus {R : Type} [Resource R] (object : R) : Call R
  | delete (R : Type) [Resource R] (key : Key) : Call Unit

/-- The calls of a store, whatever they are about. -/
inductive Call.Method where
  | get
  | list
  | create
  | patch
  | updateStatus
  | delete
  deriving DecidableEq

/-- Calls, readings of the clock, and what follows from them. -/
inductive Program (α : Type) : Type 1 where
  | done (result : α)
  | call {β : Type} (c : Call β) (next : Except StoreError β → Program α)
  | clock (next : Time → Program α)

/-- Something that answers calls. -/
structure Access (σ : Type) : Type 1 where
  perform : {β : Type} → Call β → σ → Except StoreError β × σ
  now : σ → Time

namespace Call

def Method.name : Method → String
  | .get => "get"
  | .list => "list"
  | .create => "create"
  | .patch => "patch"
  | .updateStatus => "update_status"
  | .delete => "delete"

def Method.ofName? (name : String) : Option Method :=
  [get, list, create, patch, updateStatus, delete].find? (·.name == name)

variable {β : Type}

def method : Call β → Method
  | @Call.get _ _ _ => .get
  | @Call.list _ _ => .list
  | @Call.create _ _ _ => .create
  | @Call.patch _ _ _ _ => .patch
  | @Call.updateStatus _ _ _ => .updateStatus
  | @Call.delete _ _ _ => .delete

def kind : Call β → String
  | @Call.get R _ _ => Resource.kind R
  | @Call.list R _ => Resource.kind R
  | @Call.create R _ _ => Resource.kind R
  | @Call.patch R _ _ _ => Resource.kind R
  | @Call.updateStatus R _ _ => Resource.kind R
  | @Call.delete R _ _ => Resource.kind R

/-- The key of the object that a call is about, a star when it is about all of them. -/
def key : Call β → Key
  | @Call.get _ _ key => key
  | @Call.list _ _ => { name := "*" }
  | @Call.create _ _ object => Resource.key object
  | @Call.patch _ _ base _ => Resource.key base
  | @Call.updateStatus _ _ object => Resource.key object
  | @Call.delete _ _ key => key

/-- The call that changes nothing where this one would patch an object. -/
def idle : Call β → Call β
  | @Call.patch _ _ base _ => .patch base base
  | other => other

end Call

namespace Program

variable {α β σ : Type}

def bind : Program α → (α → Program β) → Program β
  | .done a, f => f a
  | .call c next, f => .call c (fun answer => (next answer).bind f)
  | .clock next, f => .clock (fun now => (next now).bind f)

instance : Monad Program where
  pure := .done
  bind := bind

/-- A call as a program of its own. -/
def ask (c : Call β) : Program (Except StoreError β) :=
  .call c .done

def now : Program Time :=
  .clock .done

def run (access : Access σ) : Program α → σ → α × σ
  | .done a, s => (a, s)
  | .call c next, s =>
    let (answer, s) := access.perform c s
    run access (next answer) s
  | .clock next, s => run access (next (access.now s)) s

@[simp] theorem pure_eq (a : α) : (pure a : Program α) = .done a :=
  rfl

@[simp] theorem done_bind (a : α) (f : α → Program β) : (Program.done a >>= f) = f a :=
  rfl

@[simp] theorem call_bind {γ : Type} (c : Call γ) (next : Except StoreError γ → Program α)
    (f : α → Program β) : (Program.call c next >>= f) = .call c (fun answer => next answer >>= f) :=
  rfl

@[simp] theorem clock_bind (next : Time → Program α) (f : α → Program β) :
    (Program.clock next >>= f) = .clock (fun now => next now >>= f) :=
  rfl

/-- A program in two parts runs one after the other. -/
theorem run_bind (access : Access σ) (p : Program α) (f : α → Program β) (s : σ) :
    (p >>= f).run access s = (f (p.run access s).1).run access (p.run access s).2 := by
  induction p generalizing s with
  | done a => rfl
  | call c next ih => simp [run, ih]
  | clock next ih => simp [run, ih]

end Program

namespace Access

variable {σ τ : Type}

/-- An access as a part of a larger state. -/
def within (access : Access τ) (view : σ → τ) (update : τ → σ → σ) : Access σ where
  perform c s :=
    let (answer, t) := access.perform c (view s)
    (answer, update t s)
  now s := access.now (view s)

end Access

end Registrar
