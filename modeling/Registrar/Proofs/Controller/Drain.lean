import Mathlib.Data.Finset.Lattice.Fold
import Mathlib.Order.WellFounded
import Registrar.Proofs.Controller.Pool

/-!
# Draining

Once a controller has been shut down nothing makes a key dirty any more, and a dirty key stops being
so only by being delivered. So whatever is still added, the keys that were dirty are delivered once
more each, and no others. No worker waits any more: a pass comes to its end, and there are only so
many to begin, so a worker that gets its turns ends. One that finds nothing queued leaves even if
another holds a key that will go back to the queue; that other one will get it itself, and so the
last to leave leaves nothing behind (`drains_of_shutdown`).
-/

namespace Registrar

theorem WorkQueue.add_of_stopping {κ : Type} [DecidableEq κ] {q : WorkQueue κ}
    (h : q.stopping = true) (k : κ) : q.add k = q := by
  rw [add, h, Bool.true_or, if_pos rfl]

/-- Whether a worker waits for a key. -/
def Worker.isIdle : Worker → Bool
  | .idle => true
  | _ => false

def Worker.isEnded : Worker → Bool
  | .ended => true
  | _ => false

theorem Worker.isEnded_iff {worker : Worker} : worker.isEnded = true ↔ worker = .ended := by
  cases worker <;> simp [isEnded]

namespace Controller

variable {σ : Type} {b : Backend σ} {c : Controller} {s : σ} {w : Controller × σ} {move : Move σ}
  {moves : List (Move σ)} {key : Key} {i now : Nat} {schedule : Nat → Move σ}

/-! ## What is delivered -/

/-- The key that a move delivers, if it does. -/
def delivers (w : Controller × σ) : Move σ → List Key
  | .work i _ =>
    if w.1.workers[i]?.any Worker.isIdle then (w.1.queue.take?.map Prod.fst).toList else []
  | _ => []

/-- The keys delivered by moves, in their order. -/
def deliveries (b : Backend σ) : Controller × σ → List (Move σ) → List Key
  | _, [] => []
  | w, move :: moves => delivers w move ++ deliveries b (step b w move) moves

/-- How often a key is yet to be delivered, once at most. -/
def owed (c : Controller) (key : Key) : Nat :=
  if key ∈ c.queue.dirty then 1 else 0

theorem queue_addAll_of_stopping (h : c.queue.stopping = true) (key : Key) :
    (c.addAll [key]).queue = c.queue :=
  WorkQueue.add_of_stopping h key

theorem queue_follow_of_stopping (h : c.queue.stopping = true) (key : Key) (now : Nat)
    (result : Except PassError Outcome) : (c.follow key now result).queue = c.queue := by
  rcases result with e | _ | _
  · rw [follow, addAfter]
    split
    · exact WorkQueue.add_of_stopping h key
    · rfl
  · rfl
  · exact WorkQueue.add_of_stopping h key

/-- What a move does to a queue that has been shut down, and what it delivers. -/
inductive Turns (q : WorkQueue Key) : List Key → WorkQueue Key → Prop
  | same : Turns q [] q
  | takes {key : Key} {q' : WorkQueue Key} (taken : q.take? = some (key, q')) : Turns q [key] q'
  | gives (key : Key) : Turns q [] (q.done key)

theorem turns_works {c' : Controller} {s' : σ} (h : w.1.queue.stopping = true)
    (hworks : Works b now i w.1 w.2 c' s') :
    Turns w.1.queue (delivers w (.work i now)) c'.queue := by
  cases hworks with
  | begins idle taken =>
    rw [delivers, idle, taken]
    exact .takes taken
  | leaves idle drained =>
    rw [delivers, idle, drained]
    exact .same
  | calls busy | reads busy =>
    rw [delivers, busy]
    exact .same
  | ends busy =>
    rw [delivers, busy, setWorker, queue_follow_of_stopping h]
    exact .same
  | @gives key finishing =>
    rw [delivers, finishing]
    exact .gives key

/-- A turn of a worker is a step of it, or it waits or has ended. -/
theorem work_cases (b : Backend σ) (w : Controller × σ) (i now : Nat) :
    step b w (.work i now) = w ∧ delivers w (.work i now) = [] ∨
    Works b now i w.1 w.2 (step b w (.work i now)).1 (step b w (.work i now)).2 := by
  rcases hwork : w.1.work? b now i w.2 with _ | ⟨c', s'⟩
  · refine .inl ⟨by rw [step, hwork]; rfl, ?_⟩
    rw [delivers]
    split
    · rename_i hidle
      obtain ⟨worker, hi, hidle⟩ := (Option.any_eq_true _ _).1 hidle
      cases worker <;> cases hidle
      rcases htake : w.1.queue.take? with _ | ⟨key, queue⟩
      · rfl
      · simp [work?, hi, htake] at hwork
    · rfl
  · refine .inr ?_
    rw [step, hwork]
    exact works_of_work? hwork

theorem turns_step (h : w.1.queue.stopping = true) (move : Move σ) :
    Turns w.1.queue (delivers w move) (step b w move).1.queue := by
  cases move with
  | add key =>
    rw [step, queue_addAll_of_stopping h]
    exact .same
  | expire i =>
    rw [step]
    split
    · have hsame := queue_addAll_of_stopping (c := { w.1 with delayed := w.1.delayed.eraseIdx i }) h
      exact (hsame _).symm ▸ .same
    · exact .same
  | work i now =>
    rcases work_cases b w i now with ⟨hstep, hnone⟩ | hworks
    · rw [hstep, hnone]
      exact .same
    · exact turns_works h hworks
  | shutdown =>
    have hsame : w.1.queue.shutdown = w.1.queue := by rw [WorkQueue.shutdown, ← h]
    change Turns w.1.queue [] w.1.queue.shutdown
    rw [hsame]
    exact .same
  | watches | world => exact .same

namespace Turns

variable {q q' : WorkQueue Key} {keys : List Key}

theorem stopping_eq (h : Turns q keys q') : q'.stopping = q.stopping := by
  cases h with
  | same => rfl
  | takes taken => exact (WorkQueue.of_take? taken).1
  | gives key => exact WorkQueue.stopping_done q key

/-- The dirty keys are those that were dirty and have not been delivered. -/
theorem mem_dirty_iff (h : Turns q keys q') (key : Key) :
    key ∈ q'.dirty ↔ key ∈ q.dirty ∧ key ∉ keys := by
  cases h with
  | same => simp
  | takes taken =>
    rw [(WorkQueue.of_take? taken).2]
    simp
  | gives => simp

theorem length_dirty_le (h : Turns q keys q') : q'.dirty.length ≤ q.dirty.length := by
  cases h with
  | same => exact le_rfl
  | takes taken =>
    rw [(WorkQueue.of_take? taken).2]
    exact List.length_filter_le _ _
  | gives => rw [WorkQueue.dirty_done]

/-- A key that is delivered was queued, and so dirty. -/
theorem delivered (h : Turns q keys q') (hq : q.Sound) :
    keys = [] ∨ ∃ key, keys = [key] ∧ key ∈ q.dirty ∧ q'.dirty.length < q.dirty.length := by
  cases h with
  | same | gives => exact .inl rfl
  | @takes key q' taken =>
    rcases hqueue : q.queue with _ | ⟨first, rest⟩
    · rw [WorkQueue.take?_of_nil hqueue] at taken
      cases taken
    · have hdirty := hq.dirty_of_queued first (hqueue ▸ List.mem_cons_self)
      rw [hq.take?_of_cons hqueue] at taken
      obtain ⟨rfl, rfl⟩ := Prod.mk.inj (Option.some.inj taken)
      refine .inr ⟨first, rfl, hdirty, ?_⟩
      exact List.length_filter_lt_length_iff_exists.2 ⟨first, hdirty, by simp⟩

end Turns

/-- After a shutdown a key that is owed is delivered or goes on being owed, and no other is
delivered. -/
theorem owed_step (h : w.1.Kept) (hstopping : w.1.queue.stopping = true) (move : Move σ)
    (key : Key) : (delivers w move).count key + (step b w move).1.owed key = w.1.owed key := by
  have hturns := turns_step (b := b) hstopping move
  have hmem := hturns.mem_dirty_iff key
  rcases hturns.delivered h.queue with hnone | ⟨first, hfirst, hdirty, -⟩
  · rw [hnone] at hmem ⊢
    simp [owed, hmem]
  · rw [hfirst] at hmem ⊢
    by_cases hkey : key = first
    · subst hkey
      simp [owed, hmem, hdirty]
    · simp [owed, hmem, hkey, Ne.symm hkey]

theorem owed_run (h : w.1.Kept) (hstopping : w.1.queue.stopping = true) (moves : List (Move σ))
    (key : Key) : (deliveries b w moves).count key + (run b w moves).1.owed key = w.1.owed key := by
  induction moves generalizing w with
  | nil => rw [deliveries, List.count_nil, Nat.zero_add]; rfl
  | cons move moves ih =>
    have hstep := owed_step (b := b) h hstopping move key
    have hturns := turns_step (b := b) hstopping move
    have hrest := ih (h.step move) (hturns.stopping_eq.trans hstopping)
    rw [deliveries, List.count_append, run_cons]
    omega

theorem stopping_run (hstopping : w.1.queue.stopping = true) (moves : List (Move σ)) :
    (run b w moves).1.queue.stopping = true := by
  induction moves generalizing w with
  | nil => exact hstopping
  | cons move moves ih => exact ih ((turns_step hstopping move).stopping_eq.trans hstopping)

/-! ## What is left behind -/

/-- No worker is there any more. -/
def Ended (c : Controller) : Prop :=
  ∀ worker ∈ c.workers, worker = .ended

instance : Decidable c.Ended :=
  decidable_of_iff (c.workers.all Worker.isEnded = true)
    (List.all_eq_true.trans (forall₂_congr fun _ _ => Worker.isEnded_iff))

/-- As long as something is queued there is a worker left. -/
structure Attended (c : Controller) : Prop where
  kept : c.Kept
  left : c.Ended → c.queue.stopping = true ∧ c.queue.queue = []

theorem getElem?_setWorker {worker : Worker} (h : c.workers[i]? = some worker) (next : Worker) :
    (c.setWorker i next).workers[i]? = some next := by
  rw [setWorker, List.getElem?_set_self (List.getElem?_eq_some_iff.1 h).1]

/-- A step of a worker leaves the others as they are. It ends only if nothing is queued and nothing
will be added. -/
theorem workers_of_works {c' : Controller} {s' : σ} (h : Works b now i c s c' s') :
    ∃ next, c'.workers = c.workers.set i next ∧ c'.workers[i]? = some next ∧
      (next = .ended → c.queue.take? = none ∧ c.queue.stopping = true ∧ c'.queue = c.queue) := by
  cases h with
  | @begins key queue idle =>
    exact ⟨_, rfl, getElem?_setWorker (c := { c with queue }) idle _, nofun⟩
  | leaves idle drained stopping =>
    exact ⟨_, rfl, getElem?_setWorker idle _, fun _ => ⟨drained, stopping, rfl⟩⟩
  | calls busy | reads busy => exact ⟨_, rfl, getElem?_setWorker busy _, nofun⟩
  | @ends key result busy =>
    have hsame := workers_follow c key now result
    rw [← hsame] at busy ⊢
    exact ⟨_, rfl, getElem?_setWorker busy _, nofun⟩
  | @gives key finishing =>
    exact ⟨_, rfl, getElem?_setWorker (c := { c with queue := c.queue.done key }) finishing _,
      nofun⟩

namespace Attended

theorem addAll (h : c.Attended) (key : Key) : (c.addAll [key]).Attended where
  kept := h.kept.add key
  left hended := by
    obtain ⟨hstopping, hqueue⟩ := h.left hended
    rw [queue_addAll_of_stopping hstopping]
    exact ⟨hstopping, hqueue⟩

theorem works {c' : Controller} {s' : σ} (h : c.Attended) (hworks : Works b now i c s c' s') :
    c'.Attended where
  kept := h.kept.works hworks
  left hended := by
    obtain ⟨next, -, hi, hdrained⟩ := workers_of_works hworks
    obtain ⟨hnone, hstopping, hsame⟩ := hdrained (hended next (List.mem_of_getElem? hi))
    rw [hsame]
    refine ⟨hstopping, ?_⟩
    rcases hqueue : c.queue.queue with _ | ⟨first, rest⟩
    · rfl
    · simp [h.kept.queue.take?_of_cons hqueue] at hnone

theorem step (h : w.1.Attended) (move : Move σ) : (step b w move).1.Attended := by
  cases move with
  | add key => exact h.addAll key
  | expire i =>
    rw [Controller.step]
    split
    · exact addAll (c := { w.1 with delayed := w.1.delayed.eraseIdx i })
        ⟨⟨h.kept.queue, h.kept.held⟩, h.left⟩ _
    · exact h
  | work i now =>
    rcases work_cases b w i now with ⟨hstep, -⟩ | hworks
    · rw [hstep]
      exact h
    · exact h.works hworks
  | watches => exact ⟨⟨h.kept.queue, h.kept.held⟩, h.left⟩
  | shutdown => exact ⟨⟨h.kept.queue.shutdown, h.kept.held⟩, fun hended => ⟨rfl, (h.left hended).2⟩⟩
  | world => exact h

theorem run (h : w.1.Attended) (moves : List (Move σ)) : (run b w moves).1.Attended := by
  induction moves generalizing w with
  | nil => exact h
  | cons move moves ih => exact ih (h.step move)

/-- Workers that have all ended leave nothing behind. -/
theorem nothing_left (h : c.Attended) (hended : c.Ended) :
    c.queue.queue = [] ∧ c.queue.dirty = [] ∧ c.queue.processing = [] := by
  have hqueue := (h.left hended).2
  have hheld : c.workers.filterMap Worker.key? = [] :=
    List.filterMap_eq_nil_iff.2 fun worker hworker => by rw [hended worker hworker]; rfl
  have hprocessing : c.queue.processing = [] := by
    have hperm := h.kept.held
    rw [hheld] at hperm
    exact hperm.nil_eq.symm
  refine ⟨hqueue, List.eq_nil_iff_forall_not_mem.2 fun key hdirty => ?_, hprocessing⟩
  rcases h.kept.queue.queued_or_processed key hdirty with hk | hk
  · simp [hqueue] at hk
  · simp [hprocessing] at hk

end Attended

/-! ## Workers that get their turns -/

/-- The first moves of an endless schedule. -/
def opening (schedule : Nat → Move σ) (n : Nat) : List (Move σ) :=
  (List.range n).map schedule

/-- A worker gets its turn again and again. -/
def Recurs (schedule : Nat → Move σ) (i : Nat) : Prop :=
  ∀ n, ∃ m ≥ n, ∃ now, schedule m = .work i now

theorem run_opening_succ (b : Backend σ) (w : Controller × σ) (schedule : Nat → Move σ) (n : Nat) :
    run b w (opening schedule (n + 1)) = step b (run b w (opening schedule n)) (schedule n) := by
  rw [opening, List.range_succ, List.map_append, run_append]
  rfl

/-- A worker does nothing while it is not its turn. -/
theorem worker_of_other (hother : ∀ now, move ≠ .work i now) :
    (step b w move).1.workers[i]? = w.1.workers[i]? := by
  cases move with
  | add | watches | shutdown | world => rfl
  | expire j =>
    rw [step]
    split <;> rfl
  | work j now =>
    have hne : j ≠ i := by
      rintro rfl
      exact hother now rfl
    rcases work_cases b w j now with ⟨hstep, -⟩ | hworks
    · rw [hstep]
    · obtain ⟨next, hset, -⟩ := workers_of_works hworks
      rw [hset, List.getElem?_set_ne hne]

theorem length_workers_step (b : Backend σ) (w : Controller × σ) (move : Move σ) :
    (step b w move).1.workers.length = w.1.workers.length := by
  cases move with
  | add | watches | shutdown | world => rfl
  | expire j =>
    rw [step]
    split <;> rfl
  | work j now =>
    rcases work_cases b w j now with ⟨hstep, -⟩ | hworks
    · rw [hstep]
    · obtain ⟨next, hset, -⟩ := workers_of_works hworks
      rw [hset, List.length_set]

theorem length_workers_run (moves : List (Move σ)) :
    (run b w moves).1.workers.length = w.1.workers.length := by
  induction moves generalizing w with
  | nil => rfl
  | cons move moves ih => exact ih.trans (length_workers_step b w move)

/-- A worker that gets its turns has its next one as it is now. -/
theorem next_turn {worker : Worker} (hrecurs : Recurs schedule i) {n : Nat}
    (hi : (run b w (opening schedule n)).1.workers[i]? = some worker) :
    ∃ m ≥ n, ∃ now, schedule m = .work i now ∧
      (run b w (opening schedule m)).1.workers[i]? = some worker := by
  obtain ⟨m, hm, now, hwork⟩ := hrecurs n
  obtain ⟨k, rfl⟩ := Nat.exists_eq_add_of_le hm
  -- the turns of the others up to the next one of this worker
  induction k generalizing n with
  | zero => exact ⟨n, le_rfl, now, hwork, hi⟩
  | succ k ih =>
    by_cases hnow : ∃ now, schedule n = .work i now
    · obtain ⟨now, hnow⟩ := hnow
      exact ⟨n, le_rfl, now, hnow, hi⟩
    · have hnext : (run b w (opening schedule (n + 1))).1.workers[i]? = some worker := by
        rw [run_opening_succ, worker_of_other fun now h => hnow ⟨now, h⟩]
        exact hi
      have hlater : n + 1 + k = n + (k + 1) := by omega
      obtain ⟨m, hm, hturn⟩ := ih hnext (by omega) (by rwa [hlater])
      exact ⟨m, by omega, hturn⟩

theorem ended_step (hi : w.1.workers[i]? = some .ended) (move : Move σ) :
    (step b w move).1.workers[i]? = some .ended := by
  by_cases hwork : ∃ now, move = .work i now
  · obtain ⟨now, rfl⟩ := hwork
    have hnone : w.1.work? b now i w.2 = none := by rw [work?, hi]
    rw [step, hnone]
    exact hi
  · rw [worker_of_other fun now h => hwork ⟨now, h⟩]
    exact hi

theorem ended_later {n m : Nat} (hi : (run b w (opening schedule n)).1.workers[i]? = some .ended)
    (hm : n ≤ m) : (run b w (opening schedule m)).1.workers[i]? = some .ended := by
  induction m, hm using Nat.le_induction with
  | base => exact hi
  | succ m _ ih =>
    rw [run_opening_succ]
    exact ended_step ih _

/-- Only so many keys can be delivered once nothing is made dirty. -/
theorem no_more_deliveries (h : w.1.Kept) (hstopping : w.1.queue.stopping = true)
    (schedule : Nat → Move σ) :
    ∃ N, ∀ n ≥ N, delivers (run b w (opening schedule n)) (schedule n) = [] := by
  let size (n : Nat) : Nat := (run b w (opening schedule n)).1.queue.dirty.length
  have hturns : ∀ n, Turns (run b w (opening schedule n)).1.queue
      (delivers (run b w (opening schedule n)) (schedule n))
      (run b w (opening schedule (n + 1))).1.queue := by
    intro n
    rw [run_opening_succ]
    exact turns_step (stopping_run hstopping _) _
  have hanti : Antitone size := antitone_nat_of_succ_le fun n => (hturns n).length_dirty_le
  refine ⟨Function.argmin size, fun n hn => ?_⟩
  rcases (hturns n).delivered (h.run _).queue with hnone | ⟨key, -, -, hless⟩
  · exact hnone
  · exact absurd (Function.argmin_le size (n + 1)) (not_le.2 (hless.trans_le (hanti hn)))

/-- A worker that waits, when nothing is delivered any more, ends at its turn. -/
theorem ends_of_idle (hi : w.1.workers[i]? = some .idle) (hstopping : w.1.queue.stopping = true)
    (hnone : delivers w (.work i now) = []) :
    (step b w (.work i now)).1.workers[i]? = some .ended := by
  have htake : w.1.queue.take? = none := by simpa [delivers, hi, Worker.isIdle] using hnone
  have hwork : w.1.work? b now i w.2 = some (w.1.setWorker i .ended, w.2) := by
    rw [work?, hi]
    simp only [htake, hstopping, if_true]
  rw [step, hwork]
  exact getElem?_setWorker hi _

/-- What a worker has come to after a step that it could take. -/
theorem step_of_work? {c' : Controller} {s' : σ} {worker next : Worker}
    (hwork : w.1.work? b now i w.2 = some (c'.setWorker i next, s'))
    (hi : c'.workers[i]? = some worker) : (step b w (.work i now)).1.workers[i]? = some next := by
  rw [step, hwork]
  exact getElem?_setWorker hi next

section Ending

variable {N n : Nat} (hrecurs : Recurs schedule i) (hstopping : w.1.queue.stopping = true)
  (hnone : ∀ n ≥ N, delivers (run b w (opening schedule n)) (schedule n) = [])

include hrecurs hstopping hnone

theorem ended_of_idle (hn : N ≤ n)
    (hi : (run b w (opening schedule n)).1.workers[i]? = some .idle) :
    ∃ m, (run b w (opening schedule m)).1.workers[i]? = some .ended := by
  obtain ⟨m, hm, now, hwork, hidle⟩ := next_turn hrecurs hi
  have hdelivers := hnone m (hn.trans hm)
  rw [hwork] at hdelivers
  refine ⟨m + 1, ?_⟩
  rw [run_opening_succ, hwork]
  exact ends_of_idle hidle (stopping_run hstopping _) hdelivers

theorem ended_of_finishing {key : Key} (hn : N ≤ n)
    (hi : (run b w (opening schedule n)).1.workers[i]? = some (.finishing key)) :
    ∃ m, (run b w (opening schedule m)).1.workers[i]? = some .ended := by
  obtain ⟨m, hm, now, hwork, hfinishing⟩ := next_turn hrecurs hi
  refine ended_of_idle hrecurs hstopping hnone (n := m + 1) (by omega) ?_
  rw [run_opening_succ, hwork, step, work?, hfinishing]
  exact getElem?_setWorker (c := { (run b w (opening schedule m)).1 with queue := _ }) hfinishing _

/-- A pass comes to its end, whatever is answered. -/
theorem ended_of_busy {key : Key} {rest : Program (Except PassError Outcome)} (hn : N ≤ n)
    (hi : (run b w (opening schedule n)).1.workers[i]? = some (.busy key rest)) :
    ∃ m, (run b w (opening schedule m)).1.workers[i]? = some .ended := by
  induction rest generalizing n with
  | done result =>
    obtain ⟨m, hm, now, hwork, hbusy⟩ := next_turn hrecurs hi
    have hfinishing :
        (run b w (opening schedule (m + 1))).1.workers[i]? = some (.finishing key) := by
      rw [run_opening_succ, hwork]
      exact step_of_work? (by rw [work?, hbusy]) ((workers_follow _ _ _ _).symm ▸ hbusy)
    exact ended_of_finishing hrecurs hstopping hnone (by omega) hfinishing
  | call call next ih =>
    obtain ⟨m, hm, now, hwork, hbusy⟩ := next_turn hrecurs hi
    refine ih (b.perform call (run b w (opening schedule m)).2).1 (n := m + 1) (by omega) ?_
    rw [run_opening_succ, hwork]
    exact step_of_work? (by rw [work?, hbusy]) hbusy
  | clock next ih =>
    obtain ⟨m, hm, now, hwork, hbusy⟩ := next_turn hrecurs hi
    refine ih (b.now (run b w (opening schedule m)).2) (n := m + 1) (by omega) ?_
    rw [run_opening_succ, hwork]
    exact step_of_work? (by rw [work?, hbusy]) hbusy

end Ending

/-- After a shutdown a worker that gets its turns ends. -/
theorem ends_at_last (h : w.1.Kept) (hstopping : w.1.queue.stopping = true)
    (hi : i < w.1.workers.length) (hrecurs : Recurs schedule i) :
    ∃ N, ∀ n ≥ N, (run b w (opening schedule n)).1.workers[i]? = some .ended := by
  obtain ⟨N, hnone⟩ := no_more_deliveries (b := b) h hstopping schedule
  suffices hended : ∃ m, (run b w (opening schedule m)).1.workers[i]? = some .ended by
    obtain ⟨m, hm⟩ := hended
    exact ⟨m, fun n hn => ended_later hm hn⟩
  cases hworker : (run b w (opening schedule N)).1.workers[i]? with
  | none =>
    rw [List.getElem?_eq_none_iff, length_workers_run] at hworker
    omega
  | some worker =>
    cases worker with
    | idle => exact ended_of_idle hrecurs hstopping hnone le_rfl hworker
    | busy key rest => exact ended_of_busy hrecurs hstopping hnone le_rfl hworker
    | finishing key => exact ended_of_finishing hrecurs hstopping hnone le_rfl hworker
    | ended => exact ⟨N, hworker⟩

theorem all_end_at_last (h : w.1.Kept) (hstopping : w.1.queue.stopping = true)
    (hrecurs : ∀ i < w.1.workers.length, Recurs schedule i) :
    ∃ N, ∀ n ≥ N, (run b w (opening schedule n)).1.Ended := by
  have hends : ∀ i, ∃ N, i < w.1.workers.length →
      ∀ n ≥ N, (run b w (opening schedule n)).1.workers[i]? = some .ended := by
    intro i
    by_cases hi : i < w.1.workers.length
    · obtain ⟨N, hN⟩ := ends_at_last (b := b) h hstopping hi (hrecurs i hi)
      exact ⟨N, fun _ => hN⟩
    · exact ⟨0, fun hlt => absurd hlt hi⟩
  choose N hN using hends
  refine ⟨(Finset.range w.1.workers.length).sup N, fun n hn worker hworker => ?_⟩
  obtain ⟨i, hi, rfl⟩ := List.mem_iff_getElem.1 hworker
  have hlt : i < w.1.workers.length := by rwa [length_workers_run] at hi
  have hlast := hN i hlt n ((Finset.le_sup (Finset.mem_range.2 hlt)).trans hn)
  rwa [List.getElem?_eq_getElem hi, Option.some.injEq] at hlast

/-- A worker that has not ended does not wait after a shutdown. -/
theorem goes_on {worker : Worker} (hstopping : c.queue.stopping = true)
    (hi : c.workers[i]? = some worker) (hworker : worker ≠ .ended) (now : Nat) :
    (c.work? b now i s).isSome := by
  rw [work?, hi]
  cases worker with
  | idle =>
    dsimp only
    split
    · rfl
    · rw [if_pos hstopping]
      rfl
  | busy key rest => cases rest <;> rfl
  | finishing key => rfl
  | ended => exact absurd rfl hworker

/-- What becomes of a controller that is shut down. -/
structure Drains (b : Backend σ) (w : Controller × σ) : Prop where
  /-- However it goes on, a key has been delivered as often as it was owed, or still is owed. -/
  accounts (moves : List (Move σ)) (key : Key) :
    (deliveries b w (.shutdown :: moves)).count key
      + (run b w (.shutdown :: moves)).1.owed key = w.1.owed key
  /-- A worker that has not ended never has to wait. -/
  goes_on (moves : List (Move σ)) {i : Nat} {worker : Worker} (now : Nat)
    (hi : (run b w (.shutdown :: moves)).1.workers[i]? = some worker) (hworker : worker ≠ .ended) :
    ((run b w (.shutdown :: moves)).1.work? b now i (run b w (.shutdown :: moves)).2).isSome
  /-- A worker that gets its turns ends, whether the others get theirs or not. -/
  ends {schedule : Nat → Move σ} {i : Nat} (hi : i < w.1.workers.length)
    (hrecurs : Recurs schedule i) :
    ∃ N, ∀ n ≥ N, (run b w (.shutdown :: opening schedule n)).1.workers[i]? = some .ended
  /-- If all workers get their turns, all of them have ended at last. -/
  ends_all {schedule : Nat → Move σ} (hrecurs : ∀ i < w.1.workers.length, Recurs schedule i) :
    ∃ N, ∀ n ≥ N, (run b w (.shutdown :: opening schedule n)).1.Ended
  /-- Workers that have all ended have left nothing, and delivered just what was owed. -/
  clean (moves : List (Move σ)) (hended : (run b w (.shutdown :: moves)).1.Ended) :
    (run b w (.shutdown :: moves)).1.queue.queue = [] ∧
    (run b w (.shutdown :: moves)).1.queue.dirty = [] ∧
    (run b w (.shutdown :: moves)).1.queue.processing = [] ∧
    ∀ key, (deliveries b w (.shutdown :: moves)).count key = w.1.owed key

theorem Attended.drains (h : w.1.Attended) : Drains b w := by
  have hshut : (Controller.step b w .shutdown).1.Attended := h.step .shutdown
  have hstopping : (Controller.step b w .shutdown).1.queue.stopping = true := rfl
  constructor
  case accounts => exact owed_run hshut.kept hstopping
  case goes_on =>
    intro moves i worker now hi hworker
    exact Controller.goes_on (stopping_run hstopping moves) hi hworker now
  case ends => exact ends_at_last hshut.kept hstopping
  case ends_all => exact all_end_at_last hshut.kept hstopping
  case clean =>
    intro moves hended
    obtain ⟨hqueue, hdirty, hprocessing⟩ := (hshut.run moves).nothing_left hended
    refine ⟨hqueue, hdirty, hprocessing, fun key => ?_⟩
    have hnothing : (Controller.run b w (.shutdown :: moves)).1.owed key = 0 :=
      if_neg (hdirty.symm ▸ List.not_mem_nil)
    have haccounts : (deliveries b w (.shutdown :: moves)).count key
        + (Controller.run b w (.shutdown :: moves)).1.owed key = w.1.owed key :=
      owed_run hshut.kept hstopping moves key
    omega

theorem attended_of_start {rec : Reconciler} {n delay : Nat} {s₀ : σ}
    (h : start b rec n delay s₀ = (.ok c, s)) : c.Attended := by
  obtain ⟨registrations, domains, keys, rfl⟩ := start_eq h
  refine ⟨(Kept.fresh rec delay registrations domains n).addAll keys, fun hended => ?_⟩
  have hn : n ≠ 0 := by
    rintro rfl
    cases h
  refine absurd (hended .idle ?_) nofun
  exact List.mem_replicate.2 ⟨hn, rfl⟩

/-- Whatever has happened since a controller was started, when it is shut down each dirty key is
delivered once more and no other one, its workers end, and those that have all ended have left
nothing behind. -/
theorem drains_of_shutdown {rec : Reconciler} {n delay : Nat} {s₀ : σ}
    (hstart : start b rec n delay s₀ = (.ok c, s)) (front : List (Move σ)) :
    Drains b (run b (c, s) front) :=
  ((attended_of_start hstart).run front).drains

/-- A change comes while a worker is at its pass. -/
def caught : List (Move Cluster) := [.work 0 0, .add (Resource.key newcomer)]

/-- The other worker leaves, and the first one finds the key in the queue once it gives it back. -/
def leaving : List (Move Cluster) :=
  [.work 1 0, .add (Resource.key newcomer)] ++ List.replicate 20 (.work 0 0)

theorem caught_drained : ∃ c s, start Cluster.backend {} 2 5 entrance = (.ok c, s) ∧
    (run Cluster.backend (c, s) caught).1.queue.queue = [] ∧
    (run Cluster.backend (c, s) caught).1.owed (Resource.key newcomer) = 1 ∧
    (run Cluster.backend (run Cluster.backend (c, s) caught)
      [.shutdown, .work 1 0]).1.workers[1]?.any Worker.isEnded ∧
    (deliveries Cluster.backend (run Cluster.backend (c, s) caught) (.shutdown :: leaving)).count
      (Resource.key newcomer) = 1 ∧
    (run Cluster.backend (run Cluster.backend (c, s) caught)
      (.shutdown :: leaving)).1.queue.processing = [] ∧
    ∃ N, ∀ n ≥ N, (run Cluster.backend (run Cluster.backend (c, s) caught)
      (.shutdown :: opening (fun n => .work (n % 2) 0) n)).1.Ended := by
  have hruns : (match start Cluster.backend {} 2 5 entrance with
      | (.ok c, s) =>
        let w := run Cluster.backend (c, s) caught
        decide (w.1.queue.queue = [] ∧ w.1.owed (Resource.key newcomer) = 1 ∧
          (run Cluster.backend w [.shutdown, .work 1 0]).1.workers[1]?.any Worker.isEnded ∧
          (run Cluster.backend w (.shutdown :: leaving)).1.Ended ∧ w.1.workers.length = 2)
      | (.error _, _) => false) = true := by
    decide +kernel
  split at hruns
  · rename_i c s hstart
    obtain ⟨hqueue, howed, hleft, hended, htwo⟩ := of_decide_eq_true hruns
    have hdrains := drains_of_shutdown hstart caught
    obtain ⟨-, -, hprocessing, hdelivered⟩ := hdrains.clean leaving hended
    have hrecurs : ∀ i < 2, Recurs (fun n => (.work (n % 2) 0 : Move Cluster)) i := by
      intro i hi n
      refine ⟨2 * n + i, by omega, 0, ?_⟩
      change Move.work ((2 * n + i) % 2) 0 = .work i 0
      rw [Nat.mul_add_mod, Nat.mod_eq_of_lt hi]
    exact ⟨c, s, hstart, hqueue, howed, hleft, (hdelivered _).trans howed, hprocessing,
      hdrains.ends_all (htwo ▸ hrecurs)⟩
  · cases hruns

end Controller

end Registrar
