import Registrar.Proofs.Controller.Moves
import Registrar.Proofs.Runs
import Registrar.Proofs.Store.Request
import Registrar.Proofs.WorkQueue.Deliveries
import Mathlib.Data.List.Perm.Basic

/-!
# The worker pool

The workers of a controller go on in any order, while keys are added by the watches and delayed ones
fall due. Which keys the workers hold is kept in step with the queue, so the passes over a key never
overlap. A key that was added, by a watch or because a pass was not done, is due until the next pass
over it begins, so none is left behind when nothing waits any more (`pool_sound`).
-/

namespace Registrar

theorem filterMap_set_perm {α β : Type*} {l : List α} {i : Nat} {a : α} (h : l[i]? = some a) (b : α)
    (f : α → Option β) :
    (l.filterMap f).Perm ((f a).toList ++ (l.eraseIdx i).filterMap f) ∧
    ((l.set i b).filterMap f).Perm ((f b).toList ++ (l.eraseIdx i).filterMap f) := by
  obtain ⟨hi, rfl⟩ := List.getElem?_eq_some_iff.1 h
  have hcons : ∀ a : α, ((a :: l.eraseIdx i).filterMap f)
      = (f a).toList ++ (l.eraseIdx i).filterMap f := by
    intro a
    rw [List.filterMap_cons]
    cases f a <;> rfl
  rw [← hcons, ← hcons]
  exact ⟨((List.getElem_cons_eraseIdx_perm hi).filterMap f).symm,
    (List.set_perm_cons_eraseIdx hi b).filterMap f⟩

/-- The key that a worker holds. -/
def Worker.key? : Worker → Option Key
  | .busy key _ | .finishing key => some key
  | .idle | .ended => none

/-- The key of a pass that is over, and what came of it. -/
def Worker.result? : Worker → Option (Key × Except PassError Outcome)
  | .busy key (.done result) => some (key, result)
  | _ => none

theorem Worker.of_result? {worker : Worker} {key : Key} {result : Except PassError Outcome}
    (h : worker.result? = some (key, result)) : worker = .busy key (.done result) := by
  unfold result? at h
  split at h <;> cases h
  rfl

namespace Controller

variable {σ : Type} {b : Backend σ} {c : Controller} {s : σ} {w : Controller × σ} {move : Move σ}
  {moves : List (Move σ)} {key : Key}

theorem workers_follow (c : Controller) (key : Key) (now : Nat)
    (result : Except PassError Outcome) : (c.follow key now result).workers = c.workers := by
  rcases result with e | _ | _
  · rw [follow, addAfter]
    split <;> rfl
  · rfl
  · rfl

/-- What a step of a worker does. -/
inductive Works (b : Backend σ) (now i : Nat) (c : Controller) (s : σ) : Controller → σ → Prop
  | begins {key : Key} {queue : WorkQueue Key} (idle : c.workers[i]? = some .idle)
      (taken : c.queue.take? = some (key, queue)) : Works b now i c s
        ({ c with queue }.setWorker i (.busy key (c.reconciler.reconcile key).run)) s
  | leaves (idle : c.workers[i]? = some .idle) (drained : c.queue.take? = none)
      (stopping : c.queue.stopping = true) : Works b now i c s (c.setWorker i .ended) s
  | calls {key : Key} {α : Type} {call : Call α}
      {next : Except StoreError α → Program (Except PassError Outcome)}
      (busy : c.workers[i]? = some (.busy key (.call call next))) :
      Works b now i c s (c.setWorker i (.busy key (next (b.perform call s).1))) (b.perform call s).2
  | reads {key : Key} {next : Time → Program (Except PassError Outcome)}
      (busy : c.workers[i]? = some (.busy key (.clock next))) :
      Works b now i c s (c.setWorker i (.busy key (next (b.now s)))) s
  | ends {key : Key} {result : Except PassError Outcome}
      (busy : c.workers[i]? = some (.busy key (.done result))) :
      Works b now i c s ((c.follow key now result).setWorker i (.finishing key)) s
  | gives {key : Key} (finishing : c.workers[i]? = some (.finishing key)) :
      Works b now i c s ({ c with queue := c.queue.done key }.setWorker i .idle) s

theorem works_of_work? {i now : Nat} {c' : Controller} {s' : σ}
    (h : c.work? b now i s = some (c', s')) : Works b now i c s c' s' := by
  rw [work?] at h
  split at h
  · rename_i idle
    split at h
    · rename_i taken
      cases h
      exact .begins idle taken
    · rename_i drained
      split at h <;> cases h
      exact .leaves idle drained ‹_›
  · rename_i busy
    cases h
    exact .ends busy
  · rename_i busy
    cases h
    exact .calls busy
  · rename_i busy
    cases h
    exact .reads busy
  · rename_i finishing
    cases h
    exact .gives finishing
  · cases h
  · cases h

/-! ## Which keys are held -/

/-- The key that a worker of the controller holds. -/
def held? (c : Controller) (i : Nat) : Option Key :=
  c.workers[i]?.bind Worker.key?

/-- The queue is sound, and the keys that the workers hold are those being processed. -/
structure Kept (c : Controller) : Prop where
  queue : c.queue.Sound
  held : (c.workers.filterMap Worker.key?).Perm c.queue.processing

namespace Kept

theorem add (h : c.Kept) (key : Key) : (c.addAll [key]).Kept where
  queue := h.queue.add key
  held := by simpa [addAll] using h.held

theorem addAll (h : c.Kept) : ∀ (keys : List Key), (c.addAll keys).Kept := by
  intro keys
  induction keys generalizing c with
  | nil => exact h
  | cons key keys ih => exact ih (h.add key)

/-- A worker that goes on with the key it holds leaves the held keys as they are. -/
theorem set_same {worker next : Worker} {i : Nat} (h : c.Kept) (hi : c.workers[i]? = some worker)
    (hkey : next.key? = worker.key?) : (c.setWorker i next).Kept where
  queue := h.queue
  held := by
    obtain ⟨hbefore, hafter⟩ := filterMap_set_perm hi next Worker.key?
    rw [hkey] at hafter
    exact hafter.trans (hbefore.symm.trans h.held)

theorem follow (h : c.Kept) (key : Key) (now : Nat) (result : Except PassError Outcome) :
    (c.follow key now result).Kept := by
  rcases result with e | _ | _
  · rw [Controller.follow, addAfter]
    split
    · exact h.add key
    · exact ⟨h.queue, h.held⟩
  · exact h
  · exact h.add key

theorem works {i now : Nat} {c' : Controller} {s' : σ} (h : c.Kept)
    (hworks : Works b now i c s c' s') : c'.Kept := by
  cases hworks with
  | @begins key queue idle taken =>
    rcases hq : c.queue.queue with _ | ⟨first, rest⟩
    · simp [WorkQueue.take?_of_nil hq] at taken
    · rw [h.queue.take?_of_cons hq] at taken
      obtain ⟨rfl, rfl⟩ := Prod.mk.inj (Option.some.inj taken)
      obtain ⟨hbefore, hafter⟩ :=
        filterMap_set_perm idle (.busy first (c.reconciler.reconcile first).run) Worker.key?
      exact ⟨h.queue.taken hq, hafter.trans ((hbefore.symm.trans h.held).cons first)⟩
  | leaves idle => exact h.set_same idle rfl
  | calls busy | reads busy => exact h.set_same busy rfl
  | @ends key result busy =>
    have hi : (c.follow key now result).workers[i]? = some (.busy key (.done result)) := by
      rw [workers_follow, busy]
    exact (h.follow key now result).set_same hi rfl
  | @gives key finishing =>
    obtain ⟨hbefore, hafter⟩ := filterMap_set_perm finishing .idle Worker.key?
    have hheld : (key :: (c.workers.eraseIdx i).filterMap Worker.key?).Perm c.queue.processing :=
      hbefore.symm.trans h.held
    have hkey : key ∈ c.queue.processing := hheld.subset List.mem_cons_self
    refine ⟨h.queue.done hkey, ?_⟩
    change ((c.workers.set i .idle).filterMap Worker.key?).Perm (c.queue.done key).processing
    rw [h.queue.processing_done]
    exact hafter.trans (hheld.trans (List.perm_cons_erase hkey)).cons_inv

theorem step (h : w.1.Kept) (move : Move σ) : (step b w move).1.Kept := by
  cases move with
  | add key => exact h.add key
  | expire i =>
    rw [Controller.step]
    split
    · exact add (c := { w.1 with delayed := w.1.delayed.eraseIdx i }) ⟨h.queue, h.held⟩ _
    · exact h
  | work i now =>
    rw [Controller.step]
    rcases hwork : w.1.work? b now i w.2 with _ | ⟨c', s'⟩
    · exact h
    · exact h.works (works_of_work? hwork)
  | watches => exact ⟨h.queue, h.held⟩
  | shutdown => exact ⟨h.queue.shutdown, h.held⟩
  | world s => exact h

theorem run (h : w.1.Kept) : ∀ (moves : List (Move σ)), (run b w moves).1.Kept := by
  intro moves
  induction moves generalizing w with
  | nil => exact h
  | cons move moves ih => exact ih (h.step move)

/-- No two workers hold the same key. -/
theorem unique (h : c.Kept) {i j : Nat} (hi : c.held? i = some key) (hj : c.held? j = some key) :
    i = j := by
  obtain ⟨v, hv, hvkey⟩ := Option.bind_eq_some_iff.1 hi
  obtain ⟨u, hu, hukey⟩ := Option.bind_eq_some_iff.1 hj
  obtain ⟨hilt, rfl⟩ := List.getElem?_eq_some_iff.1 hv
  obtain ⟨hjlt, rfl⟩ := List.getElem?_eq_some_iff.1 hu
  have hnodup := h.held.nodup_iff.2 h.queue.processing_nodup
  rw [List.Nodup, List.pairwise_filterMap, List.pairwise_iff_getElem] at hnodup
  rcases Nat.lt_trichotomy i j with hlt | heq | hgt
  · exact absurd rfl (hnodup i j hilt hjlt hlt key hvkey key hukey)
  · exact heq
  · exact absurd rfl (hnodup j i hjlt hilt hgt key hukey key hvkey)

end Kept

/-! ## Which passes are due -/

/-- A pass over a key is going to begin: the key is to be delivered, or to be added later. -/
def Due (c : Controller) (key : Key) : Prop :=
  key ∈ c.queue.dirty ∨ key ∈ c.delayed.map Prod.snd

/-- A move begins a pass over a key. -/
def Begins (w : Controller × σ) (move : Move σ) (key : Key) : Prop :=
  ∃ i now queue, move = .work i now ∧ w.1.workers[i]? = some .idle ∧
    w.1.queue.take? = some (key, queue)

/-- A move ends a pass over a key. -/
def Ends (w : Controller × σ) (move : Move σ) (key : Key) (result : Except PassError Outcome) :
    Prop :=
  ∃ i now, move = .work i now ∧ w.1.workers[i]? = some (.busy key (.done result))

theorem ends_of_result? {i : Nat} {result : Except PassError Outcome} (now : Nat)
    (h : w.1.workers[i]?.bind Worker.result? = some (key, result)) :
    Ends w (.work i now) key result := by
  obtain ⟨worker, hworker, hresult⟩ := Option.bind_eq_some_iff.1 h
  exact ⟨i, now, rfl, Worker.of_result? hresult ▸ hworker⟩

/-- A pass over a key begins at one of the moves. -/
def BegunIn (b : Backend σ) (w : Controller × σ) (moves : List (Move σ)) (key : Key) : Prop :=
  HappensIn (step b) (fun w move => Begins w move key) w moves

/-- The controller has not been shut down, and nothing waits or is under way. -/
structure Quiet (c : Controller) : Prop where
  running : c.queue.stopping = false
  queue : c.queue.queue = []
  processing : c.queue.processing = []
  delayed : c.delayed = []

instance : Decidable c.Quiet :=
  decidable_of_iff (c.queue.stopping = false ∧ c.queue.queue = [] ∧ c.queue.processing = [] ∧
      c.delayed.length = 0)
    ⟨fun ⟨hr, hq, hp, hd⟩ => ⟨hr, hq, hp, List.eq_nil_of_length_eq_zero hd⟩,
      fun ⟨hr, hq, hp, hd⟩ => ⟨hr, hq, hp, hd ▸ rfl⟩⟩

theorem Kept.not_due (h : c.Kept) (hquiet : c.Quiet) (key : Key) : ¬c.Due key := by
  rintro (hdirty | hdelayed)
  · rcases h.queue.queued_or_processed key hdirty with hk | hk
    · simp [hquiet.queue] at hk
    · simp [hquiet.processing] at hk
  · simp [hquiet.delayed] at hdelayed

theorem Due.add {other : Key} (h : c.Due key) : (c.addAll [other]).Due key :=
  h.imp_left fun hdirty => WorkQueue.mem_dirty_add.2 (.inl hdirty)

theorem due_of_add (hopen : c.queue.stopping = false) : (c.addAll [key]).Due key :=
  .inl (WorkQueue.mem_dirty_add.2 (.inr ⟨rfl, hopen⟩))

/-- A delayed key that is added is due, and so is what was due before. -/
theorem Due.expire {i due : Nat} {other : Key} (h : c.Due key) (hopen : c.queue.stopping = false)
    (hi : c.delayed[i]? = some (due, other)) :
    ({ c with delayed := c.delayed.eraseIdx i }.addAll [other]).Due key := by
  rcases h with hdirty | hdelayed
  · exact .inl (WorkQueue.mem_dirty_add.2 (.inl hdirty))
  · obtain ⟨hlt, heq⟩ := List.getElem?_eq_some_iff.1 hi
    have hperm := (List.getElem_cons_eraseIdx_perm hlt).map Prod.snd
    rw [heq, List.map_cons] at hperm
    rcases List.mem_cons.1 (hperm.mem_iff.2 hdelayed) with rfl | hlater
    · exact due_of_add hopen
    · exact .inr hlater

theorem Due.follow {other : Key} (h : c.Due key) (now : Nat) (result : Except PassError Outcome) :
    (c.follow other now result).Due key := by
  rcases result with e | _ | _
  · rw [Controller.follow, addAfter]
    split
    · exact h.add
    · exact h.imp_right fun hdelayed => by simp [List.mem_map.1 hdelayed]
  · exact h
  · exact h.add

/-- A pass that is not done makes another one due. -/
theorem due_of_follow (hopen : c.queue.stopping = false) (now : Nat)
    {result : Except PassError Outcome} (hleft : result ≠ .ok .done) :
    (c.follow key now result).Due key := by
  rcases result with e | _ | _
  · rw [follow, addAfter]
    split
    · exact due_of_add hopen
    · exact .inr (by simp)
  · exact absurd rfl hleft
  · exact due_of_add hopen

theorem stopping_follow (c : Controller) (key : Key) (now : Nat)
    (result : Except PassError Outcome) :
    (c.follow key now result).queue.stopping = c.queue.stopping := by
  rcases result with e | _ | _
  · rw [follow, addAfter]
    split <;> simp
  · rfl
  · simp [follow]

/-- Once shut down, a controller stays so. -/
theorem stopping_of_step (hopen : (step b w move).1.queue.stopping = false) :
    w.1.queue.stopping = false := by
  cases move with
  | add key => simpa [step, addAll] using hopen
  | expire i =>
    rw [step] at hopen
    split at hopen
    · simpa [addAll] using hopen
    · exact hopen
  | work i now =>
    rw [step] at hopen
    rcases hwork : w.1.work? b now i w.2 with _ | ⟨c', s'⟩ <;> rw [hwork] at hopen
    · exact hopen
    · have hworks := works_of_work? hwork
      change c'.queue.stopping = false at hopen
      cases hworks with
      | begins _ taken => rw [← (WorkQueue.of_take? taken).1]; exact hopen
      | leaves | calls | reads => exact hopen
      | ends => rwa [setWorker, stopping_follow] at hopen
      | gives => simpa [setWorker] using hopen
  | watches | world => exact hopen
  | shutdown => simp [step, shutdown, WorkQueue.shutdown] at hopen

theorem stopping_of_run (moves : List (Move σ)) (hopen : (run b w moves).1.queue.stopping = false) :
    w.1.queue.stopping = false := by
  induction moves generalizing w with
  | nil => exact hopen
  | cons move moves ih => exact stopping_of_step (ih hopen)

/-- A pass that is due goes on being due until it begins. -/
theorem due_step (h : w.1.Due key) (hopen : w.1.queue.stopping = false) (move : Move σ) :
    Begins w move key ∨ (step b w move).1.Due key := by
  cases move with
  | add other => exact .inr h.add
  | expire i =>
    refine .inr ?_
    rw [step]
    split
    · rename_i due other hi
      exact h.expire hopen hi
    · exact h
  | work i now =>
    rw [step]
    rcases hwork : w.1.work? b now i w.2 with _ | ⟨c', s'⟩
    · exact .inr h
    · have hworks := works_of_work? hwork
      change _ ∨ c'.Due key
      cases hworks with
      | @begins other queue idle taken =>
        by_cases heq : key = other
        · exact .inl ⟨i, now, queue, rfl, idle, heq ▸ taken⟩
        · refine .inr (h.imp_left fun hdirty => ?_)
          change key ∈ queue.dirty
          rw [(WorkQueue.of_take? taken).2]
          exact List.mem_filter.2 ⟨hdirty, by simpa using heq⟩
      | leaves | calls | reads => exact .inr h
      | ends => exact .inr (h.follow now _)
      | gives => exact .inr (h.imp_left fun hdirty => by simpa [setWorker] using hdirty)
  | watches | shutdown | world => exact .inr h

theorem due_run (moves : List (Move σ)) (h : w.1.Due key)
    (hopen : (run b w moves).1.queue.stopping = false) :
    BegunIn b w moves key ∨ (run b w moves).1.Due key := by
  induction moves generalizing w with
  | nil => exact .inr h
  | cons move moves ih =>
    rw [BegunIn, happensIn_cons]
    have hstep : (step b w move).1.queue.stopping = false := stopping_of_run moves hopen
    rcases due_step h (stopping_of_step hstep) move with hbegins | hdue
    · exact .inl (.inl hbegins)
    · exact (ih hdue hopen).imp_left .inr

/-- When nothing is left to do, a pass that was due has begun. -/
theorem Kept.begun_of_due (h : w.1.Kept) (hquiet : (Controller.run b w moves).1.Quiet)
    (hdue : w.1.Due key) : BegunIn b w moves key :=
  (due_run moves hdue hquiet.running).resolve_right ((h.run moves).not_due hquiet key)

/-- What a move makes due begins after it. -/
theorem Kept.begun_after {front back : List (Move σ)} (h : w.1.Kept)
    (hquiet : (Controller.run b w (front ++ move :: back)).1.Quiet)
    (hdue : (Controller.run b w front).1.queue.stopping = false →
      (Controller.step b (Controller.run b w front) move).1.Due key) :
    BegunIn b (Controller.run b w (front ++ [move])) back key := by
  rw [run_append, run_cons] at hquiet
  rw [run_append, run_cons]
  have hopen := stopping_of_step (stopping_of_run back hquiet.running)
  exact ((h.run front).step move).begun_of_due hquiet (hdue hopen)

theorem due_of_ends {result : Except PassError Outcome} (h : Ends w move key result)
    (hleft : result ≠ .ok .done) (hopen : w.1.queue.stopping = false) :
    (step b w move).1.Due key := by
  obtain ⟨i, now, rfl, hbusy⟩ := h
  have hwork : w.1.work? b now i w.2
      = some ((w.1.follow key now result).setWorker i (.finishing key), w.2) := by
    rw [work?, hbusy]
  rw [step, hwork]
  exact due_of_follow hopen now hleft

/-- A controller of which nothing has been asked yet. -/
def fresh (reconciler : Reconciler) (retryDelay registrations domains workers : Nat) :
    Controller where
  reconciler
  retryDelay
  queue := .empty
  delayed := []
  registrations := some registrations
  domains := some domains
  stopping := false
  workers := List.replicate workers .idle

theorem Kept.fresh (rec : Reconciler) (delay registrations domains n : Nat) :
    (fresh rec delay registrations domains n).Kept where
  queue := .empty
  held := by simp [Controller.fresh, Worker.key?, WorkQueue.empty]

/-- A controller starts with every registration in its queue. -/
theorem start_eq {rec : Reconciler} {n delay : Nat} {s₀ : σ}
    (h : start b rec n delay s₀ = (.ok c, s)) : ∃ registrations domains keys,
      c = (fresh rec delay registrations domains n).addAll keys := by
  rw [start] at h
  split at h
  · cases h
  · split at h
    · cases h
    · split at h
      · cases h
      · split at h <;> cases h
        exact ⟨_, _, _, rfl⟩

/-- However many workers a controller starts with and whatever happens then, no two of them ever
hold the same key. Whenever nothing waits and nothing is under way any more, a pass has begun over
each key that was queued at the start, over each key that was added, after it was added, and over
each key of which a pass was not done, after that pass. -/
theorem pool_sound {rec : Reconciler} {n delay : Nat} {s₀ : σ}
    (hstart : start b rec n delay s₀ = (.ok c, s)) (moves : List (Move σ)) :
    (∀ i j key, (run b (c, s) moves).1.held? i = some key →
      (run b (c, s) moves).1.held? j = some key → i = j) ∧
    ((run b (c, s) moves).1.Quiet →
      (∀ key ∈ c.queue.queue, BegunIn b (c, s) moves key) ∧
      (∀ front key back, moves = front ++ .add key :: back →
        BegunIn b (run b (c, s) (front ++ [.add key])) back key) ∧
      ∀ front move back key result, moves = front ++ move :: back →
        Ends (run b (c, s) front) move key result → result ≠ .ok .done →
        BegunIn b (run b (c, s) (front ++ [move])) back key) := by
  have hkept : c.Kept := by
    obtain ⟨registrations, domains, keys, rfl⟩ := start_eq hstart
    exact (Kept.fresh rec delay registrations domains n).addAll keys
  refine ⟨fun i j key => (hkept.run moves).unique, fun hquiet => ⟨fun key hkey => ?_, ?_, ?_⟩⟩
  · exact hkept.begun_of_due hquiet (.inl (hkept.queue.dirty_of_queued key hkey))
  · rintro front key back rfl
    exact hkept.begun_after hquiet due_of_add
  · rintro front move back key result rfl hends hleft
    exact hkept.begun_after hquiet (due_of_ends hends hleft)

/-- A registration that no pass has seen yet. -/
def newcomer : Registration :=
  Registration.named "team" "app"

def entrance : Cluster :=
  ⟨(Store.empty.create .epoch newcomer).store, .idle 8, .epoch⟩

/-- The registration is gone when the first pass marks it, and is back for the second one. -/
def interrupted : List (Move Cluster) := [
  .work 0 0, .work 0 0, .world { entrance with store := .empty }, .work 0 0, .work 0 0, .work 0 0,
  .expire 0, .world entrance] ++ List.replicate 14 (.work 1 5)

/-- What came of the first pass. -/
def lost : PassError :=
  .ofStore ⟨.notFound "DomainRegistration" (Resource.key newcomer), none⟩ "Adding finalizer"

theorem interrupted_retried : ∃ c s, start Cluster.backend {} 2 5 entrance = (.ok c, s) ∧
    (run Cluster.backend (c, s) interrupted).1.Quiet ∧
    Ends (run Cluster.backend (c, s) (interrupted.take 4)) (.work 0 0) (Resource.key newcomer)
      (.error lost) ∧
    BegunIn Cluster.backend (run Cluster.backend (c, s) (interrupted.take 5)) (interrupted.drop 5)
      (Resource.key newcomer) ∧
    Ends (run Cluster.backend (c, s) (interrupted.take 11)) (.work 1 5) (Resource.key newcomer)
      (.ok .requeue) ∧
    BegunIn Cluster.backend (run Cluster.backend (c, s) (interrupted.take 12))
      (interrupted.drop 12) (Resource.key newcomer) := by
  have hruns : (match start Cluster.backend {} 2 5 entrance with
      | (.ok c, s) => decide ((run Cluster.backend (c, s) interrupted).1.Quiet ∧
        (run Cluster.backend (c, s) (interrupted.take 4)).1.workers[0]?.bind Worker.result?
          = some (Resource.key newcomer, .error lost) ∧
        (run Cluster.backend (c, s) (interrupted.take 11)).1.workers[1]?.bind Worker.result?
          = some (Resource.key newcomer, .ok .requeue))
      | (.error _, _) => false) = true := by
    decide +kernel
  split at hruns
  · rename_i c s hstart
    obtain ⟨hquiet, hlost, hmarked⟩ := of_decide_eq_true hruns
    have hlost := ends_of_result? 0 hlost
    have hmarked := ends_of_result? 5 hmarked
    obtain ⟨-, hsettled⟩ := pool_sound hstart interrupted
    obtain ⟨-, -, hretried⟩ := hsettled hquiet
    refine ⟨c, s, hstart, hquiet, hlost, ?_, hmarked, ?_⟩
    · exact hretried (interrupted.take 4) _ (interrupted.drop 5) _ _ rfl hlost nofun
    · exact hretried (interrupted.take 11) _ (interrupted.drop 12) _ _ rfl hmarked nofun
  · cases hruns

end Controller

end Registrar
