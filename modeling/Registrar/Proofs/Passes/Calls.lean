import Registrar.Proofs.Store.Request
import Registrar.Reconcile

/-!
# The calls of a pass

Whatever the store answers, a pass calls it for nothing but requests about registrations and domains
(`asks_reconcile`).
-/

namespace Registrar

/-- A call that a request makes. -/
inductive Call.IsRequest : {β : Type} → Call β → Prop
  | of (r : Request) : IsRequest r.call

/-- A program makes no calls but those of requests. -/
def Program.Asks {α : Type} : Program α → Prop
  | .done _ => True
  | .call c next => c.IsRequest ∧ ∀ answer, (next answer).Asks
  | .clock next => ∀ now, (next now).Asks

variable {α β : Type}

theorem Program.asks_bind {f : α → Program β} (hf : ∀ a, (f a).Asks) :
    ∀ {p : Program α}, p.Asks → (p >>= f).Asks
  | .done a, _ => hf a
  | .call _ _, h => ⟨h.1, fun answer => asks_bind hf (h.2 answer)⟩
  | .clock _, h => fun now => asks_bind hf (h now)

namespace Pass

def Asks (p : Pass α) : Prop :=
  p.run.Asks

theorem asks_pure (a : α) : Asks (pure a) :=
  trivial

theorem asks_throw (e : PassError) : Asks (throw e : Pass α) :=
  trivial

theorem asks_bind {p : Pass α} {f : α → Pass β} (hp : p.Asks) (hf : ∀ a, (f a).Asks) :
    (p >>= f).Asks := by
  refine Program.asks_bind (fun answer => ?_) hp
  rcases answer with e | a
  · exact trivial
  · exact hf a

theorem asks_lift {p : Program α} (h : p.Asks) : Asks (ExceptT.lift p) :=
  Program.asks_bind (f := fun a => .done (Except.ok a)) (fun _ => trivial) h

theorem asks_ask {c : Call β} (h : c.IsRequest) : Asks (ask c) :=
  asks_lift ⟨h, fun _ => trivial⟩

theorem asks_require {c : Call β} (h : c.IsRequest) (context : String) :
    Asks (require c context) :=
  asks_bind (asks_ask h) fun answer => by
    rcases answer with e | a
    · exact asks_throw _
    · exact asks_pure a

theorem asks_now : Asks now :=
  asks_lift fun _ => trivial

theorem asks_attempt {p : Pass α} (h : p.Asks) : Asks (attempt p) :=
  asks_lift h

theorem asks_map {p : Pass α} (f : α → β) (h : p.Asks) : Asks (do return f (← p)) :=
  asks_bind h fun a => asks_pure (f a)

end Pass

open Pass

namespace Binding

theorem asks_retrying {key : Key} {attempts : Nat} {attempt : Pass (Option α)}
    (h : attempt.Asks) : ∀ n, (retrying key attempts attempt n).Asks
  | 0 => asks_throw _
  | n + 1 => asks_bind h fun answer => by
    rcases answer with _ | a
    · exact asks_retrying h n
    · exact asks_pure a

theorem asks_tryWrite (key : Key) (domain : Domain) (registrations : List Reference) :
    (tryWrite key domain registrations).Asks :=
  asks_bind (asks_ask (.of (.patch .domain domain _))) fun answer => by
    rcases answer with e | stored
    · dsimp only
      split
      · exact asks_pure _
      · exact asks_throw _
    · exact asks_pure _

theorem asks_tryRegister (key : Key) (reference : Reference) :
    (tryRegister key reference).Asks :=
  asks_bind (asks_ask (.of (.get .domain key))) fun answer => by
    rcases answer with e | domain
    · dsimp only
      split
      · exact asks_bind (asks_require (.of (.create .domain _)) _) fun _ => asks_pure _
      · exact asks_throw _
    · dsimp only
      split
      · exact asks_pure _
      · exact asks_map _ (asks_tryWrite _ _ _)

theorem asks_tryUnregister (key : Key) (reference : Reference) :
    (tryUnregister key reference).Asks :=
  asks_bind (asks_ask (.of (.get .domain key))) fun answer => by
    rcases answer with e | domain
    · dsimp only
      split
      · exact asks_pure _
      · exact asks_throw _
    · dsimp only
      split
      · exact asks_pure _
      · exact asks_map _ (asks_tryWrite _ _ _)

end Binding

namespace Finalizer

variable {k : Kind} (o : k.Object) (marker : String)

theorem asks_ensure : (ensure o marker).Asks := by
  rw [ensure]
  split
  · exact trivial
  · exact ⟨.of (.patch k o _), fun _ => trivial⟩

theorem asks_release : (release o marker).Asks := by
  rw [release]
  split
  · exact trivial
  · exact ⟨.of (.patch k o _), fun _ => trivial⟩

end Finalizer

namespace Reconciler

variable (rec : Reconciler) (registration : Registration)

theorem asks_verified : (rec.verified registration).Asks :=
  asks_bind (asks_ask (.of (.get .domain _))) fun answer => by
    rcases answer with e | domain
    · dsimp only
      split <;> exact asks_pure _
    · dsimp only
      split <;> exact asks_pure _

theorem asks_accepted : (rec.accepted registration).Asks :=
  asks_bind (asks_attempt (Binding.asks_retrying (Binding.asks_tryUnregister _ _) _))
    fun answer => by
      rcases answer with e | bound <;> exact asks_pure _

theorem asks_report (condition : Condition) (previous : List Condition) :
    (report registration condition previous).Asks :=
  asks_bind asks_now fun _ => asks_require (.of (.updateStatus .registration _)) _

theorem asks_reconcileDeleting : (rec.reconcileDeleting registration).Asks := by
  refine asks_bind (rec.asks_accepted registration) fun ⟨condition, removable⟩ => ?_
  refine asks_bind (asks_report _ _ _) fun stored => ?_
  split
  · refine asks_bind (asks_lift (Finalizer.asks_release (k := .registration) stored _))
      fun answer => ?_
    rcases answer with e | _
    · exact asks_throw _
    · exact asks_pure _
  · exact asks_pure _

theorem asks_reconcileLive : (rec.reconcileLive registration).Asks := by
  refine asks_bind (asks_lift (Finalizer.asks_ensure (k := .registration) registration _))
    fun answer => ?_
  rcases answer with e | ⟨marked, _ | _⟩
  · exact asks_throw _
  · refine asks_bind (Binding.asks_retrying (Binding.asks_tryRegister _ _) _) fun _ => ?_
    refine asks_bind (rec.asks_verified marked) fun ⟨condition, told⟩ => ?_
    exact asks_map _ (asks_report _ _ _)
  · exact asks_pure _

theorem asks_reconcile (key : Key) : (rec.reconcile key).Asks := by
  refine asks_bind (asks_ask (.of (.get .registration key))) fun answer => ?_
  rcases answer with e | registration
  · dsimp only
    split
    · exact asks_pure _
    · exact asks_throw _
  · dsimp only
    split
    · exact rec.asks_reconcileDeleting registration
    · exact rec.asks_reconcileLive registration

end Reconciler

end Registrar
