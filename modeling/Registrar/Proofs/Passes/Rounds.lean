import Registrar.Proofs.Passes.Binder

/-!
# The rounds of a binding

A registration is bound or released in rounds, each from a fresh read of the domain, until one of
them does not end in a conflict. This holds whatever answers the calls (`binding_tried`): there are
at most as many writes as attempts, each made of the domain read right before it, at most one of
them is taken, and none when the binding ends in an error.
-/

namespace Registrar

namespace Call

variable {R : Type} [Resource R]

@[simp]
theorem method_get (key : Key) : (get R key).method = .get :=
  rfl

@[simp]
theorem method_create (object : R) : (create object).method = .create :=
  rfl

@[simp]
theorem method_patch (base mutated : R) : (patch base mutated).method = .patch :=
  rfl

end Call

/-- A call that was made and its answer. -/
structure Exchange where
  {β : Type}
  call : Call β
  answer : Except StoreError β

namespace Exchange

variable (x : Exchange)

def method : Call.Method :=
  x.call.method

def error? : Option StoreError :=
  match x.answer with
  | .ok _ => none
  | .error e => some e

def isPatch : Bool :=
  x.method == .patch

/-- A patch from a version that is no longer the stored one. -/
def isConflict : Bool :=
  x.isPatch && x.error?.any StoreError.isConflict

/-- A write that was answered without an error. -/
def isTaken : Bool :=
  x.method != .get && x.method != .list && x.error?.isNone

variable {β : Type} (c : Call β) (answer : Except StoreError β) (b : β) (e : StoreError)

@[simp]
theorem method_mk : method ⟨c, answer⟩ = c.method :=
  rfl

@[simp]
theorem error?_ok : error? ⟨c, .ok b⟩ = none :=
  rfl

@[simp]
theorem error?_error : error? ⟨c, .error e⟩ = some e :=
  rfl

@[simp]
theorem isPatch_mk : isPatch ⟨c, answer⟩ = (c.method == .patch) :=
  rfl

@[simp]
theorem isConflict_ok : isConflict ⟨c, .ok b⟩ = false := by
  simp [isConflict]

@[simp]
theorem isConflict_error :
    isConflict ⟨c, .error e⟩ = (c.method == .patch && e.isConflict) := by
  simp [isConflict]

@[simp]
theorem isTaken_ok : isTaken ⟨c, .ok b⟩ = (c.method != .get && c.method != .list) := by
  simp [isTaken]

@[simp]
theorem isTaken_error : isTaken ⟨c, .error e⟩ = false := by
  simp [isTaken]

end Exchange

namespace Program

variable {α β σ : Type} (access : Access σ)

/-- The calls that a program makes through an access, with their answers. -/
def exchanges : Program α → σ → List Exchange
  | .done _, _ => []
  | .call c next, s =>
    ⟨c, (access.perform c s).1⟩ :: exchanges (next (access.perform c s).1) (access.perform c s).2
  | .clock next, s => exchanges (next (access.now s)) s

theorem exchanges_bind (f : α → Program β) : ∀ (p : Program α) (s : σ),
    (p >>= f).exchanges access s
      = p.exchanges access s ++ (f (p.run access s).1).exchanges access (p.run access s).2
  | .done _, _ => rfl
  | .call c next, s => by
    simp only [call_bind, exchanges, run, exchanges_bind f, List.cons_append]
  | .clock next, s => exchanges_bind f (next (access.now s)) s

end Program

namespace Binding

/-- What is said of a call about a domain that failed. -/
def complaint (method : Call.Method) (key : Key) : String :=
  match method with
  | .get => s!"Reading domain {key}"
  | .create => s!"Creating domain {key}"
  | _ => s!"Patching domain {key}"

/-- How a binding goes that edits the list of a domain in at most so many rounds. A domain that is
missing ends it in its own way. -/
structure Tried {α : Type} (key : Key) (edit : List Reference → List Reference)
    (missing : List Exchange → Except PassError α → Prop) (attempts rounds : Nat)
    (calls : List Exchange) (result : Except PassError α) : Prop where
  bounded : calls.countP Exchange.isPatch ≤ rounds
  /-- Each patch is made of the domain that was read right before it. -/
  fresh : ∀ front x back, calls = front ++ x :: back → x.isPatch = true →
    ∃ earlier d answer, front = earlier ++ [⟨.get Domain key, .ok d⟩] ∧
      x = ⟨.patch d { d with spec.registrations := edit d.spec.registrations }, answer⟩ ∧
      edit d.spec.registrations ≠ d.spec.registrations
  once : calls.countP Exchange.isTaken ≤ 1
  exhausted_iff : (∃ k n context, result = .error ⟨.retriesExhausted k n, context⟩) ↔
    calls.countP Exchange.isConflict = rounds
  exhausted : calls.countP Exchange.isConflict = rounds → result = .error
    ⟨.retriesExhausted key attempts, some "Updating domain registrations"⟩
  /-- Any error ends the binding, but for a conflict and for a read that finds no domain. -/
  stops : ∀ front x back e, calls = front ++ x :: back → x.error? = some e →
    x.isConflict = false → (x.method = .get → e.isNotFound = false) →
    back = [] ∧ result = .error (.ofStore e (some (complaint x.method key)))
  missing : ∀ front x back e, calls = front ++ x :: back → x.method = .get →
    x.error? = some e → e.isNotFound = true → missing back result
  /-- A binding without an error has written, or has read last what it was to write. -/
  settled : ∀ a, result = .ok a → calls.countP Exchange.isTaken = 1 ∨
    (∃ earlier d, calls = earlier ++ [⟨.get Domain key, .ok d⟩] ∧
      edit d.spec.registrations = d.spec.registrations) ∨
    ∃ earlier e, calls = earlier ++ [⟨.get Domain key, .error e⟩] ∧ e.isNotFound = true
  untaken : ∀ e, result = .error e → calls.countP Exchange.isTaken = 0

/-- How one round goes, and what it ends in: nothing after a conflict. -/
inductive Round {α : Type} (key : Key) (edit : List Reference → List Reference)
    (missing : List Exchange → Except PassError α → Prop) :
    List Exchange → Except PassError (Option α) → Prop
  | unread {e : StoreError} (h : e.isNotFound = false) :
      Round key edit missing [⟨.get Domain key, .error e⟩]
        (.error (.ofStore e (some (complaint .get key))))
  | missing {e : StoreError} {rest : List Exchange} {result : Except PassError α}
      {ended : Except PassError (Option α)} (h : e.isNotFound = true) (hrest : missing rest result)
      (hended : ended = result.map some) :
      Round key edit missing (⟨.get Domain key, .error e⟩ :: rest) ended
  | idle {d : Domain} (a : α) (h : edit d.spec.registrations = d.spec.registrations) :
      Round key edit missing [⟨.get Domain key, .ok d⟩] (.ok (some a))
  | written {d : Domain} (stored : Domain) (a : α)
      (h : edit d.spec.registrations ≠ d.spec.registrations) :
      Round key edit missing [⟨.get Domain key, .ok d⟩,
        ⟨.patch d { d with spec.registrations := edit d.spec.registrations }, .ok stored⟩]
        (.ok (some a))
  | conflicted {d : Domain} {e : StoreError} (he : e.isConflict = true)
      (h : edit d.spec.registrations ≠ d.spec.registrations) :
      Round key edit missing [⟨.get Domain key, .ok d⟩,
        ⟨.patch d { d with spec.registrations := edit d.spec.registrations }, .error e⟩]
        (.ok none)
  | refused {d : Domain} {e : StoreError} (he : e.isConflict = false)
      (h : edit d.spec.registrations ≠ d.spec.registrations) :
      Round key edit missing [⟨.get Domain key, .ok d⟩,
        ⟨.patch d { d with spec.registrations := edit d.spec.registrations }, .error e⟩]
        (.error (.ofStore e (some (complaint .patch key))))

/-- A registration whose domain is missing is bound by a domain that lists it alone. -/
def BoundAlone (key : Key) (r : Reference) (calls : List Exchange) (result : Except PassError Unit) :
    Prop :=
  ∃ answer : Except StoreError Domain,
    calls = [⟨.create { Domain.named key.name with spec.registrations := [r] }, answer⟩] ∧
    result = (answer.mapError (PassError.ofStore · (some (complaint .create key)))).map fun _ => ()

/-- A registration whose domain is missing is not bound. -/
def Unbound (calls : List Exchange) (result : Except PassError Bool) : Prop :=
  calls = [] ∧ result = .ok false

section Rounds

variable {α β σ : Type} {key : Key} {edit : List Reference → List Reference}
  {missing : List Exchange → Except PassError α → Prop} (access : Access σ)

section Asking

variable {γ : Type} (c : Call β) (f : Except StoreError β → Pass α) (g : α → Pass γ) (s : σ)

theorem exchanges_ask_bind : (Pass.ask c >>= f).run.exchanges access s =
    ⟨c, (access.perform c s).1⟩ ::
      (f (access.perform c s).1).run.exchanges access (access.perform c s).2 :=
  rfl

theorem run_ask_bind : (Pass.ask c >>= f).run.run access s
    = (f (access.perform c s).1).run.run access (access.perform c s).2 :=
  rfl

theorem exchanges_ask_bind_bind : (Pass.ask c >>= f >>= g).run.exchanges access s =
    ⟨c, (access.perform c s).1⟩ ::
      (f (access.perform c s).1 >>= g).run.exchanges access (access.perform c s).2 :=
  rfl

theorem run_ask_bind_bind : (Pass.ask c >>= f >>= g).run.run access s
    = (f (access.perform c s).1 >>= g).run.run access (access.perform c s).2 :=
  rfl

end Asking

/-- A round goes on with a patch of the domain that was read. -/
theorem round_tryWrite {d : Domain} (f : Domain → α)
    (h : edit d.spec.registrations ≠ d.spec.registrations) (s : σ) :
    let write : Pass (Option α) := do
      let stored ← tryWrite key d (edit d.spec.registrations)
      return stored.map f
    Round key edit missing (⟨.get Domain key, .ok d⟩ :: write.run.exchanges access s)
      (write.run.run access s).1 := by
  dsimp only
  rw [tryWrite, exchanges_ask_bind_bind, run_ask_bind_bind]
  rcases access.perform (.patch d _) s with ⟨e | stored, t⟩ <;> dsimp only
  · split
    · rename_i he
      exact .conflicted he h
    · rename_i he
      exact .refused (by simpa using he) h
  · exact .written stored (f stored) h

theorem round_tryRegister (key : Key) (r : Reference) (s : σ) :
    Round key (References.append · r) (BoundAlone key r)
      ((tryRegister key r).run.exchanges access s) ((tryRegister key r).run.run access s).1 := by
  rw [tryRegister, exchanges_ask_bind, run_ask_bind]
  rcases access.perform (.get Domain key) s with ⟨e | d, t⟩ <;> dsimp only <;> split
  · rename_i hmissing
    rw [Pass.require, exchanges_ask_bind_bind, run_ask_bind_bind]
    rcases access.perform (.create _) t with ⟨e' | new, u⟩
    · exact .missing hmissing ⟨.error e', rfl, rfl⟩ rfl
    · exact .missing hmissing ⟨.ok new, rfl, rfl⟩ rfl
  · rename_i hfailed
    exact .unread (by simpa using hfailed)
  · rename_i hcontains
    exact .idle () (by simp [References.append, hcontains])
  · rename_i hcontains
    exact round_tryWrite access (fun _ => ())
      (References.append_ne_iff.2 (by simpa using hcontains)) t

theorem round_tryUnregister (key : Key) (r : Reference) (s : σ) :
    Round key (References.remove · r) Unbound
      ((tryUnregister key r).run.exchanges access s) ((tryUnregister key r).run.run access s).1 := by
  rw [tryUnregister, exchanges_ask_bind, run_ask_bind]
  rcases access.perform (.get Domain key) s with ⟨e | d, t⟩ <;> dsimp only <;> split
  · rename_i hmissing
    exact .missing hmissing ⟨rfl, rfl⟩ rfl
  · rename_i hfailed
    exact .unread (by simpa using hfailed)
  · rename_i hcontains
    exact .idle false (References.remove_eq_iff.2 (by simpa using hcontains))
  · rename_i hcontains
    exact round_tryWrite access (fun d => References.contains d.spec.registrations r)
      (References.remove_ne_iff.2 (by simpa using hcontains)) t

theorem single_eq_append {x z : Exchange} {front back : List Exchange}
    (h : [x] = front ++ z :: back) : front = [] ∧ z = x ∧ back = [] := by
  rcases front with _ | ⟨x', front⟩ <;> simp_all

theorem pair_eq_append {x y z : Exchange} {rest front back : List Exchange}
    (h : x :: y :: rest = front ++ z :: back) : (front = [] ∧ z = x ∧ back = y :: rest) ∨
      (front = [x] ∧ z = y ∧ back = rest) ∨
      ∃ front', front = x :: y :: front' ∧ rest = front' ++ z :: back := by
  rcases front with _ | ⟨x', _ | ⟨y', front⟩⟩ <;> simp_all

/-- Nothing is left to do about a missing domain but to create it. -/
def Ends (key : Key) (missing : List Exchange → Except PassError α → Prop) : Prop :=
  ∀ calls result, missing calls result → (calls = [] ∧ ∃ a, result = .ok a) ∨
    ∃ d answer, calls = [⟨.create d, answer⟩] ∧ match (answer : Except StoreError Domain) with
      | .ok _ => ∃ a, result = .ok a
      | .error e => result = .error (.ofStore e (some (complaint .create key)))

theorem ends_boundAlone (key : Key) (r : Reference) : Ends key (BoundAlone key r) := by
  rintro calls result ⟨e | stored, rfl, rfl⟩
  · exact .inr ⟨_, _, rfl, rfl⟩
  · exact .inr ⟨_, _, rfl, (), rfl⟩

theorem ends_unbound (key : Key) : Ends key Unbound := by
  rintro calls result ⟨rfl, rfl⟩
  exact .inl ⟨rfl, false, rfl⟩

section Attempts

variable {d : Domain} {attempts rounds : Nat} {calls : List Exchange} {result : Except PassError α}

/-- A binding that ends in its only read. -/
theorem Tried.of_read (answer : Except StoreError Domain)
    (hend : (∃ e, answer = .error e ∧ e.isNotFound = false ∧
        result = .error (.ofStore e (some (complaint .get key)))) ∨
      (∃ e a, answer = .error e ∧ e.isNotFound = true ∧ result = .ok a ∧ missing [] result) ∨
      ∃ d a, answer = .ok d ∧ result = .ok a ∧ edit d.spec.registrations = d.spec.registrations) :
    Tried key edit missing attempts (rounds + 1) [⟨.get Domain key, answer⟩] result where
  bounded := by simp
  fresh front x back hcalls hpatch := by
    obtain ⟨-, rfl, -⟩ := single_eq_append hcalls
    simp at hpatch
  once := by
    rcases answer with e | d <;> simp
  exhausted_iff := by
    rcases hend with ⟨e, rfl, -, rfl⟩ | ⟨e, a, rfl, -, rfl, -⟩ | ⟨d, a, rfl, rfl, -⟩ <;>
      simp [PassError.ofStore]
  exhausted h := by
    rcases answer with e | d <;> simp at h
  stops front x back e hcalls herror _ hread := by
    obtain ⟨-, rfl, rfl⟩ := single_eq_append hcalls
    rcases hend with ⟨e', rfl, -, rfl⟩ | ⟨e', a, rfl, hmissing, -⟩ | ⟨d, a, rfl, -⟩ <;>
      simp_all
  missing front x back e hcalls _ herror hmissing := by
    obtain ⟨-, rfl, rfl⟩ := single_eq_append hcalls
    rcases hend with ⟨e', rfl, hfound, -⟩ | ⟨e', a, rfl, -, -, h⟩ | ⟨d, a, rfl, -⟩ <;>
      simp_all
  settled a ha := by
    right
    rcases hend with ⟨e, rfl, -, rfl⟩ | ⟨e, a, rfl, hmissing, -⟩ | ⟨d, a, rfl, -, hsame⟩
    · cases ha
    · exact .inr ⟨[], e, rfl, hmissing⟩
    · exact .inl ⟨[], d, rfl, hsame⟩
  untaken e he := by
    rcases answer with e | d <;> simp

/-- A binding that ends in the write after its only read. -/
theorem Tried.of_write {c : Call Domain} {read answer : Except StoreError Domain}
    (hc : (∃ d, read = .ok d ∧ edit d.spec.registrations ≠ d.spec.registrations ∧
        c = .patch d { d with spec.registrations := edit d.spec.registrations }) ∨
      ∃ e d, read = .error e ∧ e.isNotFound = true ∧ c = .create d ∧ missing [⟨c, answer⟩] result)
    (hok : ∀ stored, answer = .ok stored → ∃ a, result = .ok a)
    (herror : ∀ e, answer = .error e → (c.method = .patch → e.isConflict = false) ∧
      result = .error (.ofStore e (some (complaint c.method key)))) :
    Tried key edit missing attempts (rounds + 1) [⟨.get Domain key, read⟩, ⟨c, answer⟩] result := by
  have hconflicts : List.countP Exchange.isConflict [⟨.get Domain key, read⟩, ⟨c, answer⟩] = 0 := by
    rcases read with e | d <;> rcases answer with e' | stored <;>
      simp_all
  have hmethod : c.method = .patch ∨ c.method = .create := by
    rcases hc with ⟨d, -, -, rfl⟩ | ⟨e, d, -, -, rfl, -⟩ <;> simp
  constructor
  case bounded => rcases hmethod with h | h <;> simp [h]
  case fresh =>
    intro front x back hcalls hpatch
    obtain ⟨-, rfl, -⟩ | ⟨rfl, rfl, -⟩ | ⟨front, -, hrest⟩ := pair_eq_append hcalls
    · simp at hpatch
    · rcases hc with ⟨d, rfl, hne, rfl⟩ | ⟨e, d, -, -, rfl, -⟩
      · exact ⟨[], d, answer, rfl, rfl, hne⟩
      · simp at hpatch
    · simp at hrest
  case once =>
    rcases read with e | d <;> rcases answer with e' | stored <;>
      rcases hmethod with h | h <;> simp [h]
  case exhausted_iff =>
    rw [hconflicts]
    rcases answer with e | stored
    · simp [(herror e rfl).2, PassError.ofStore]
    · obtain ⟨a, rfl⟩ := hok stored rfl
      simp
  case exhausted => simp [hconflicts]
  case stops =>
    intro front x back e hcalls herr hconflict hread
    obtain ⟨-, rfl, -⟩ | ⟨-, rfl, rfl⟩ | ⟨front, -, hrest⟩ := pair_eq_append hcalls
    · rcases hc with ⟨d, rfl, -⟩ | ⟨e', d, rfl, hmissing, -⟩ <;> simp_all
    · rcases answer with e' | stored
      · obtain rfl : e' = e := by simpa using herr
        exact ⟨rfl, (herror e' rfl).2⟩
      · simp at herr
    · simp at hrest
  case missing =>
    intro front x back e hcalls hget herr hmissing
    obtain ⟨-, rfl, rfl⟩ | ⟨-, rfl, -⟩ | ⟨front, -, hrest⟩ := pair_eq_append hcalls
    · rcases hc with ⟨d, rfl, -⟩ | ⟨e', d, rfl, -, -, h⟩
      · simp at herr
      · exact h
    · rcases hmethod with h | h <;> simp [h] at hget
    · simp at hrest
  case settled =>
    rintro a rfl
    left
    rcases answer with e | stored
    · simp at herror
    · rcases read with e | d <;> rcases hmethod with h | h <;> simp [h]
  case untaken =>
    rintro e rfl
    rcases answer with e' | stored
    · rcases read with e | d <;> simp
    · simp at hok

theorem map_some_inj {r r' : Except PassError α} : r.map some = r'.map some ↔ r = r' := by
  rcases r with e | a <;> rcases r' with e' | a' <;> simp [Except.map]

theorem ok_none_ne_map (r : Except PassError α) : .ok none ≠ r.map some := by
  rcases r with e | a <;> simp [Except.map]

/-- A round without a conflict ends the binding. -/
theorem Tried.of_round (hends : Ends key missing)
    (h : Round key edit missing calls (result.map some)) :
    Tried key edit missing attempts (rounds + 1) calls result := by
  generalize hr : result.map some = r at h
  cases h with
  | @unread e hfound =>
    obtain rfl : result = .error (.ofStore e _) := map_some_inj.1 hr
    exact .of_read _ (.inl ⟨e, rfl, hfound, rfl⟩)
  | @missing e rest result' ended hmissing hrest hended =>
    obtain rfl : result = result' := map_some_inj.1 (hr.trans hended)
    obtain ⟨rfl, a, rfl⟩ | ⟨d, answer, rfl, hend⟩ := hends _ _ hrest
    · exact .of_read _ (.inr (.inl ⟨e, a, rfl, hmissing, rfl, hrest⟩))
    · refine .of_write (.inr ⟨e, d, rfl, hmissing, rfl, hrest⟩) ?_ ?_
      · rintro stored rfl
        exact hend
      · rintro e' rfl
        exact ⟨nofun, hend⟩
  | @idle d a hsame =>
    obtain rfl : result = .ok a := map_some_inj.1 hr
    exact .of_read _ (.inr (.inr ⟨d, a, rfl, rfl, hsame⟩))
  | @written d stored a hne =>
    obtain rfl : result = .ok a := map_some_inj.1 hr
    exact .of_write (.inl ⟨d, rfl, hne, rfl⟩) (fun _ _ => ⟨a, rfl⟩) nofun
  | conflicted => exact absurd hr.symm (ok_none_ne_map result)
  | @refused d e he hne =>
    obtain rfl : result = .error (.ofStore e _) := map_some_inj.1 hr
    refine .of_write (.inl ⟨d, rfl, hne, rfl⟩) ?_ ?_
    · rintro stored ⟨⟩
    · rintro e' ⟨⟩
      exact ⟨fun _ => he, rfl⟩

end Attempts

/-- A conflict is one round more. -/
theorem Tried.after_conflict {d : Domain} {e : StoreError} {attempts rounds : Nat}
    {calls : List Exchange} {result : Except PassError α} (he : e.isConflict = true)
    (hne : edit d.spec.registrations ≠ d.spec.registrations)
    (h : Tried key edit missing attempts rounds calls result) :
    Tried key edit missing attempts (rounds + 1) (⟨.get Domain key, .ok d⟩ ::
      ⟨.patch d { d with spec.registrations := edit d.spec.registrations }, .error e⟩ :: calls)
      result where
  bounded := by
    simpa using h.bounded
  fresh front x back hcalls hpatch := by
    obtain ⟨-, rfl, -⟩ | ⟨rfl, rfl, -⟩ | ⟨front, rfl, hrest⟩ := pair_eq_append hcalls
    · simp at hpatch
    · exact ⟨[], d, _, rfl, rfl, hne⟩
    · obtain ⟨earlier, d', answer, rfl, hx⟩ := h.fresh front x back hrest hpatch
      exact ⟨_ :: _ :: earlier, d', answer, rfl, hx⟩
  once := by
    simpa using h.once
  exhausted_iff := by
    rw [h.exhausted_iff]
    simp [he]
  exhausted hall := h.exhausted (by simpa [he] using hall)
  stops front x back e' hcalls herror hconflict hread := by
    obtain ⟨-, rfl, -⟩ | ⟨-, rfl, -⟩ | ⟨front, -, hrest⟩ := pair_eq_append hcalls
    · simp at herror
    · simp [he] at hconflict
    · exact h.stops front x back e' hrest herror hconflict hread
  missing front x back e' hcalls hget herror hmissing := by
    obtain ⟨-, rfl, -⟩ | ⟨-, rfl, -⟩ | ⟨front, -, hrest⟩ := pair_eq_append hcalls
    · simp at herror
    · simp at hget
    · exact h.missing front x back e' hrest hget herror hmissing
  settled a ha := by
    rcases h.settled a ha with htaken | ⟨earlier, d', rfl, hsame⟩ | ⟨earlier, e', rfl, hmissing⟩
    · left
      simpa using htaken
    · exact .inr (.inl ⟨_ :: _ :: earlier, d', rfl, hsame⟩)
    · exact .inr (.inr ⟨_ :: _ :: earlier, e', rfl, hmissing⟩)
  untaken e' hresult := by
    simpa using h.untaken e' hresult

/-- Without a round left nothing is called. -/
theorem Tried.zero (attempts : Nat) : Tried key edit missing attempts 0 []
    (.error ⟨.retriesExhausted key attempts, some "Updating domain registrations"⟩) where
  bounded := by simp
  fresh := by simp
  once := by simp
  exhausted_iff := by simp
  exhausted := by simp
  stops := by simp
  missing := by simp
  settled := by simp
  untaken := by simp

section Loop

variable {attempt : Pass (Option α)} (attempts n : Nat) {s : σ}

theorem exchanges_retrying_succ :
    (retrying key attempts attempt (n + 1)).run.exchanges access s =
      attempt.run.exchanges access s ++ match attempt.run.run access s with
        | (.ok none, t) => (retrying key attempts attempt n).run.exchanges access t
        | _ => [] := by
  rw [retrying, ExceptT.run_bind, Program.exchanges_bind]
  rcases attempt.run.run access s with ⟨e | _ | a, t⟩ <;> rfl

theorem run_retrying_succ :
    (retrying key attempts attempt (n + 1)).run.run access s =
      match attempt.run.run access s with
        | (.ok none, t) => (retrying key attempts attempt n).run.run access t
        | (.ok (some a), t) => (.ok a, t)
        | (.error e, t) => (.error e, t) := by
  rw [retrying, ExceptT.run_bind, Program.run_bind]
  rcases attempt.run.run access s with ⟨e | _ | a, t⟩ <;> rfl

/-- Rounds that are made until one does not end in a conflict. -/
theorem tried_retrying (hends : Ends key missing) (hround : ∀ s : σ, Round key edit missing
      (attempt.run.exchanges access s) (attempt.run.run access s).1) : ∀ (n : Nat) (s : σ),
    Tried key edit missing attempts n
      ((retrying key attempts attempt n).run.exchanges access s)
      ((retrying key attempts attempt n).run.run access s).1
  | 0, _ => .zero attempts
  | n + 1, s => by
    have h := hround s
    rw [exchanges_retrying_succ, run_retrying_succ]
    rcases hrun : attempt.run.run access s with ⟨e | _ | a, t⟩ <;> rw [hrun] at h <;>
      dsimp only
    · rw [List.append_nil]
      exact .of_round hends h
    · generalize attempt.run.exchanges access s = front at h
      cases h with
      | missing _ _ hended => exact absurd hended (ok_none_ne_map _)
      | conflicted he hne => exact (tried_retrying hends hround n t).after_conflict he hne
    · rw [List.append_nil]
      exact .of_round hends h

end Loop

/-- However the calls are answered, a binding goes as `Tried` says, in so many rounds as attempts are
allowed and in one if none is. -/
theorem binding_tried {σ : Type} (access : Access σ) (s : σ) (registration : Registration)
    (attempts : Nat) :
    let key := domainKey registration
    let r := Resource.reference registration
    Tried key (References.append · r) (BoundAlone key r) (max attempts 1) (max attempts 1)
        ((register registration attempts).run.exchanges access s)
        ((register registration attempts).run.run access s).1 ∧
      Tried key (References.remove · r) Unbound (max attempts 1) (max attempts 1)
        ((unregister registration attempts).run.exchanges access s)
        ((unregister registration attempts).run.run access s).1 :=
  ⟨tried_retrying access _ (ends_boundAlone _ _) (round_tryRegister access _ _) _ s,
    tried_retrying access _ (ends_unbound _) (round_tryUnregister access _ _) _ s⟩

end Rounds

end Binding

end Registrar
