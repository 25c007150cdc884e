import Registrar.WorkQueue
import Mathlib.Data.List.Nodup
import Mathlib.Data.List.Perm.Lattice

/-!
# Deliveries of the work queue

Any number of workers get keys from a queue and give each back when they are done with it, while
keys are added. The queue stays sound, so no key is held twice; keys leave in the order in which
they entered, none more often than it was added; and a key that has been added is dirty until it is
delivered, so when nothing waits and nothing is held, nothing has been lost (`deliveries_sound`).
-/

namespace Registrar

namespace WorkQueue

variable {κ : Type} [DecidableEq κ] {q q' : WorkQueue κ} {k k' : κ}

/-- No key waits twice, or waits while it is processed; the keys that wait are dirty, and a dirty
key waits or is processed. -/
structure Sound (q : WorkQueue κ) : Prop where
  queue_nodup : q.queue.Nodup
  processing_nodup : q.processing.Nodup
  apart : ∀ k ∈ q.queue, k ∉ q.processing
  dirty_of_queued : ∀ k ∈ q.queue, k ∈ q.dirty
  queued_or_processed : ∀ k ∈ q.dirty, k ∈ q.queue ∨ k ∈ q.processing

omit [DecidableEq κ] in
theorem Sound.empty : (empty : WorkQueue κ).Sound := by
  constructor <;> simp [WorkQueue.empty]

/-! ## Adding -/

@[simp] theorem stopping_add (q : WorkQueue κ) (k : κ) : (q.add k).stopping = q.stopping := by
  unfold add
  split
  · rfl
  · split <;> rfl

@[simp] theorem processing_add (q : WorkQueue κ) (k : κ) :
    (q.add k).processing = q.processing := by
  unfold add
  split
  · rfl
  · split <;> rfl

theorem queue_add (q : WorkQueue κ) (k : κ) :
    (q.add k).queue = q.queue ++ if q.enqueues k then [k] else [] := by
  unfold add enqueues
  rcases q.stopping with _ | _ <;> rcases q.dirty.contains k with _ | _ <;>
    rcases q.processing.contains k with _ | _ <;> simp

theorem mem_dirty_add : k' ∈ (q.add k).dirty ↔ k' ∈ q.dirty ∨ k' = k ∧ q.stopping = false := by
  unfold add
  rcases q.stopping with _ | _
  · by_cases hdirty : k ∈ q.dirty
    · simp only [hdirty, Bool.false_or, List.contains_iff_mem, if_true]
      exact ⟨.inl, fun h => h.elim id fun h => h.1 ▸ hdirty⟩
    · by_cases hprocessing : k ∈ q.processing <;> simp [hdirty, hprocessing, or_comm]
  · simp

theorem enqueues_eq_true : q.enqueues k = true ↔
    q.stopping = false ∧ k ∉ q.dirty ∧ k ∉ q.processing := by
  simp [enqueues, and_assoc]

theorem Sound.add (h : q.Sound) (k : κ) : (q.add k).Sound where
  queue_nodup := by
    rw [queue_add]
    split
    · rename_i henqueues
      obtain ⟨-, hdirty, -⟩ := enqueues_eq_true.1 henqueues
      refine List.nodup_append.2 ⟨h.queue_nodup, by simp, fun a ha b hb => ?_⟩
      rintro rfl
      exact hdirty (List.mem_singleton.1 hb ▸ h.dirty_of_queued a ha)
    · simpa using h.queue_nodup
  processing_nodup := by simpa using h.processing_nodup
  apart k' hk' := by
    rw [queue_add] at hk'
    rw [processing_add]
    rcases List.mem_append.1 hk' with hk' | hk'
    · exact h.apart k' hk'
    · split at hk'
      · rename_i henqueues
        rw [List.mem_singleton.1 hk']
        exact (enqueues_eq_true.1 henqueues).2.2
      · simp at hk'
  dirty_of_queued k' hk' := by
    rw [queue_add] at hk'
    rw [mem_dirty_add]
    rcases List.mem_append.1 hk' with hk' | hk'
    · exact .inl (h.dirty_of_queued k' hk')
    · split at hk'
      · rename_i henqueues
        exact .inr ⟨List.mem_singleton.1 hk', (enqueues_eq_true.1 henqueues).1⟩
      · simp at hk'
  queued_or_processed k' hk' := by
    rw [queue_add, processing_add, List.mem_append]
    rcases mem_dirty_add.1 hk' with hk' | ⟨rfl, hstopping⟩
    · exact (h.queued_or_processed k' hk').imp_left .inl
    · by_cases hdirty : k' ∈ q.dirty
      · exact (h.queued_or_processed k' hdirty).imp_left .inl
      · by_cases hprocessing : k' ∈ q.processing
        · exact .inr hprocessing
        · rw [if_pos (enqueues_eq_true.2 ⟨hstopping, hdirty, hprocessing⟩)]
          exact .inl (.inr (List.mem_singleton.2 rfl))

/-! ## Delivering -/

/-- The queue after its first key has been delivered. -/
def taken (q : WorkQueue κ) (k : κ) (rest : List κ) : WorkQueue κ :=
  { q with queue := rest, dirty := q.dirty.filter (· != k), processing := k :: q.processing }

theorem take?_of_nil (h : q.queue = []) : q.take? = none := by
  rw [take?, h]

theorem of_take? (h : q.take? = some (k, q')) :
    q'.stopping = q.stopping ∧ q'.dirty = q.dirty.filter (· != k) := by
  rw [take?] at h
  split at h
  · simp at h
  · obtain ⟨rfl, rfl⟩ := Prod.mk.inj (Option.some.inj h)
    exact ⟨rfl, rfl⟩

theorem Sound.take?_of_cons {rest : List κ} (h : q.Sound) (hq : q.queue = k :: rest) :
    q.take? = some (k, q.taken k rest) := by
  have hprocessing : k ∉ q.processing := h.apart k (hq ▸ List.mem_cons_self)
  rw [take?, hq]
  simp [WorkQueue.taken, hprocessing]

theorem Sound.taken {rest : List κ} (h : q.Sound) (hq : q.queue = k :: rest) :
    (q.taken k rest).Sound := by
  have hnodup := h.queue_nodup
  rw [hq, List.nodup_cons] at hnodup
  have hqueued : ∀ k' ∈ rest, k' ∈ q.queue := fun k' hk' => hq ▸ List.mem_cons_of_mem k hk'
  have hne : ∀ k' ∈ rest, k' ≠ k := by
    rintro k' hk' rfl
    exact hnodup.1 hk'
  constructor
  · exact hnodup.2
  · exact List.nodup_cons.2 ⟨h.apart k (hq ▸ List.mem_cons_self), h.processing_nodup⟩
  · intro k' hk' hprocessing
    rcases List.mem_cons.1 hprocessing with heq | hprocessing
    · exact hne k' hk' heq
    · exact h.apart k' (hqueued k' hk') hprocessing
  · intro k' hk'
    exact List.mem_filter.2 ⟨h.dirty_of_queued k' (hqueued k' hk'), by simpa using hne k' hk'⟩
  · intro k' hk'
    obtain ⟨hdirty, hk'⟩ := List.mem_filter.1 hk'
    have hk' : k' ≠ k := by simpa using hk'
    rcases h.queued_or_processed k' hdirty with hqueued | hprocessing
    · rw [hq] at hqueued
      exact .inl ((List.mem_cons.1 hqueued).resolve_left hk')
    · exact .inr (List.mem_cons_of_mem k hprocessing)

/-! ## Giving back -/

theorem queue_done (q : WorkQueue κ) (k : κ) :
    (q.done k).queue = q.queue ++ if q.returns k then [k] else [] := by
  rw [done]
  change (if q.returns k then _ else _ : WorkQueue κ).queue = _
  split <;> simp

@[simp] theorem dirty_done (q : WorkQueue κ) (k : κ) : (q.done k).dirty = q.dirty := by
  rw [done]
  dsimp only
  split <;> rfl

@[simp] theorem stopping_done (q : WorkQueue κ) (k : κ) : (q.done k).stopping = q.stopping := by
  rw [done]
  dsimp only
  split <;> rfl

theorem Sound.processing_done (h : q.Sound) (k : κ) :
    (q.done k).processing = q.processing.erase k := by
  rw [h.processing_nodup.erase_eq_filter, done]
  dsimp only
  split <;> rfl

theorem Sound.done (h : q.Sound) (hk : k ∈ q.processing) : (q.done k).Sound := by
  have hqueued : k ∉ q.queue := fun hqueued => h.apart k hqueued hk
  constructor
  · rw [queue_done]
    split
    · refine List.nodup_append.2 ⟨h.queue_nodup, by simp, fun a ha b hb => ?_⟩
      rintro rfl
      exact hqueued (List.mem_singleton.1 hb ▸ ha)
    · simpa using h.queue_nodup
  · rw [h.processing_done]
    exact h.processing_nodup.erase k
  · intro k' hk'
    rw [h.processing_done, h.processing_nodup.mem_erase_iff, not_and_or, not_not]
    rw [queue_done, List.mem_append] at hk'
    rcases hk' with hk' | hk'
    · exact .inr (h.apart k' hk')
    · split at hk'
      · exact .inl (List.mem_singleton.1 hk')
      · simp at hk'
  · intro k' hk'
    rw [queue_done, List.mem_append] at hk'
    rw [dirty_done]
    rcases hk' with hk' | hk'
    · exact h.dirty_of_queued k' hk'
    · split at hk'
      · rename_i hreturns
        rw [List.mem_singleton.1 hk']
        exact List.contains_iff_mem.1 hreturns
      · simp at hk'
  · intro k' hk'
    rw [dirty_done] at hk'
    rw [queue_done, List.mem_append, h.processing_done, h.processing_nodup.mem_erase_iff]
    by_cases heq : k' = k
    · subst heq
      rw [if_pos (show q.returns k' = true from List.contains_iff_mem.2 hk')]
      exact .inl (.inr (List.mem_singleton.2 rfl))
    · exact (h.queued_or_processed k' hk').imp .inl fun hprocessing => ⟨heq, hprocessing⟩

omit [DecidableEq κ] in
theorem Sound.shutdown (h : q.Sound) : q.shutdown.Sound where
  queue_nodup := h.queue_nodup
  processing_nodup := h.processing_nodup
  apart := h.apart
  dirty_of_queued := h.dirty_of_queued
  queued_or_processed := h.queued_or_processed

/-! ## Workers at a queue -/

/-- What may happen at a queue. -/
inductive Turn (ω κ : Type) where
  | add (key : κ)
  /-- A worker gets the key that has waited longest; it goes on waiting when there is none. -/
  | get (worker : ω)
  | done (worker : ω) (key : κ)
  | shutdown
  deriving DecidableEq

/-- A queue, and what each worker has got from it and not given back. -/
structure Desk (ω κ : Type) where
  queue : WorkQueue κ
  held : List (ω × κ)

namespace Desk

variable {ω : Type} [DecidableEq ω] {d : Desk ω κ} {turn : Turn ω κ} {turns : List (Turn ω κ)}

def opened : Desk ω κ :=
  ⟨.empty, []⟩

def step (d : Desk ω κ) : Turn ω κ → Desk ω κ
  | .add k => { d with queue := d.queue.add k }
  | .get w =>
    match d.queue.take? with
    | some (k, queue) => ⟨queue, (w, k) :: d.held⟩
    | none => d
  | .done w k => ⟨d.queue.done k, d.held.erase (w, k)⟩
  | .shutdown => { d with queue := d.queue.shutdown }

def run (d : Desk ω κ) (turns : List (Turn ω κ)) : Desk ω κ :=
  turns.foldl step d

/-- A key is given back by a worker that holds it. -/
def May (d : Desk ω κ) : Turn ω κ → Prop
  | .done w k => (w, k) ∈ d.held
  | _ => True

def Permits : Desk ω κ → List (Turn ω κ) → Prop
  | _, [] => True
  | d, turn :: turns => d.May turn ∧ (d.step turn).Permits turns

/-- The key that a turn delivers, if there is one. -/
def delivers (d : Desk ω κ) : Turn ω κ → List κ
  | .get _ => (d.queue.take?.map Prod.fst).toList
  | _ => []

/-- The key that enters the queue by a turn, if there is one. -/
def enters (d : Desk ω κ) : Turn ω κ → List κ
  | .add k => if d.queue.enqueues k then [k] else []
  | .done _ k => if d.queue.returns k then [k] else []
  | _ => []

/-- The keys delivered by turns, in their order. -/
def deliveries : Desk ω κ → List (Turn ω κ) → List κ
  | _, [] => []
  | d, turn :: turns => d.delivers turn ++ (d.step turn).deliveries turns

/-- The keys that enter the queue by turns, in their order. -/
def entries : Desk ω κ → List (Turn ω κ) → List κ
  | _, [] => []
  | d, turn :: turns => d.enters turn ++ (d.step turn).entries turns

theorem run_append (d : Desk ω κ) (front back : List (Turn ω κ)) :
    d.run (front ++ back) = (d.run front).run back :=
  List.foldl_append

/-- The queue is sound, and the keys that are held are those being processed. -/
structure Sound (d : Desk ω κ) : Prop where
  queue : d.queue.Sound
  held : (d.held.map Prod.snd).Perm d.queue.processing

omit [DecidableEq κ] [DecidableEq ω] in
theorem Sound.opened : (opened : Desk ω κ).Sound :=
  ⟨.empty, .refl _⟩

theorem Sound.step (h : d.Sound) (hmay : d.May turn) : (d.step turn).Sound := by
  cases turn with
  | add k => exact ⟨h.queue.add k, by simpa [Desk.step] using h.held⟩
  | get w =>
    rw [Desk.step]
    rcases hq : d.queue.queue with _ | ⟨k, rest⟩
    · rw [take?_of_nil hq]
      exact h
    · rw [h.queue.take?_of_cons hq]
      exact ⟨h.queue.taken hq, h.held.cons k⟩
  | done w k =>
    have hheld : (k :: (d.held.erase (w, k)).map Prod.snd).Perm d.queue.processing :=
      ((List.perm_cons_erase hmay).map Prod.snd).symm.trans h.held
    have hk : k ∈ d.queue.processing := hheld.subset List.mem_cons_self
    refine ⟨h.queue.done hk, ?_⟩
    rw [Desk.step, h.queue.processing_done]
    exact (hheld.trans (List.perm_cons_erase hk)).cons_inv
  | shutdown => exact ⟨h.queue.shutdown, h.held⟩

/-- What has waited and what enters is delivered or goes on waiting, in this order. -/
theorem queue_step (d : Desk ω κ) (turn : Turn ω κ) :
    d.queue.queue ++ d.enters turn = d.delivers turn ++ (d.step turn).queue.queue := by
  cases turn with
  | add k => exact (queue_add d.queue k).symm
  | get w =>
    rcases hq : d.queue.queue with _ | ⟨k, rest⟩ <;> simp [enters, delivers, step, take?, hq]
  | done w k => exact (queue_done d.queue k).symm
  | shutdown => simp [enters, delivers, step, WorkQueue.shutdown]

theorem stopping_step (d : Desk ω κ) (turn : Turn ω κ) :
    (d.step turn).queue.stopping = (d.queue.stopping || decide (turn = .shutdown)) := by
  cases turn with
  | add k => simp [step]
  | get w => rcases hq : d.queue.queue with _ | ⟨k, rest⟩ <;> simp [step, take?, hq]
  | done w k => simp [step]
  | shutdown => simp [step, WorkQueue.shutdown]

/-- A dirty key goes on being dirty until it is delivered. -/
theorem dirty_step (d : Desk ω κ) (turn : Turn ω κ) {k : κ} (hk : k ∈ d.queue.dirty) :
    k ∈ d.delivers turn ∨ k ∈ (d.step turn).queue.dirty := by
  cases turn with
  | add k' => exact .inr (mem_dirty_add.2 (.inl hk))
  | get w =>
    rcases hq : d.queue.queue with _ | ⟨k', rest⟩
    · simp [step, take?, hq, hk]
    · by_cases heq : k = k' <;> simp [delivers, step, take?, hq, hk, heq]
  | done w k' => simp [step, hk]
  | shutdown => exact .inr hk

/-- Only adding a key makes it dirty. -/
theorem dirty_of_step {k : κ} (hk : k ∈ (d.step turn).queue.dirty) :
    k ∈ d.queue.dirty ∨ d.queue.stopping = false ∧ turn = .add k := by
  cases turn with
  | add k' => exact (mem_dirty_add.1 hk).imp_right fun ⟨heq, hstopping⟩ => ⟨hstopping, heq ▸ rfl⟩
  | get w =>
    rcases hq : d.queue.queue with _ | ⟨k', rest⟩ <;> simp [step, take?, hq] at hk
    · exact .inl hk
    · exact .inl hk.1
  | done w k' => exact .inl (by simpa [step] using hk)
  | shutdown => exact .inl hk

/-- A key that is delivered was dirty and is not any more. -/
theorem Sound.delivers_cases (h : d.Sound) (turn : Turn ω κ) : d.delivers turn = [] ∨
    ∃ k, d.delivers turn = [k] ∧ k ∈ d.queue.dirty ∧ k ∉ (d.step turn).queue.dirty := by
  cases turn with
  | add k | done w k | shutdown => exact .inl rfl
  | get w =>
    rcases hq : d.queue.queue with _ | ⟨k, rest⟩
    · exact .inl (by simp [delivers, take?, hq])
    · have hk : k ∈ d.queue.dirty := h.queue.dirty_of_queued k (hq ▸ List.mem_cons_self)
      exact .inr ⟨k, by simp [delivers, take?, hq], hk, by simp [Desk.step, take?, hq]⟩

/-- How often a key is yet to be delivered, once at most. -/
def due (d : Desk ω κ) (k : κ) : Nat :=
  if k ∈ d.queue.dirty then 1 else 0

/-- A key is due once more when it is added, and is due no more when it is delivered. -/
theorem Sound.count_step (h : d.Sound) (turn : Turn ω κ) (k : κ) :
    (d.delivers turn).count k + (d.step turn).due k
      ≤ d.due k + if d.queue.stopping = false ∧ turn = .add k then 1 else 0 := by
  have hlater : (d.step turn).due k
      ≤ d.due k + if d.queue.stopping = false ∧ turn = .add k then 1 else 0 := by
    by_cases hk : k ∈ (d.step turn).queue.dirty
    · rcases dirty_of_step hk with hdirty | hadded
      · simp [due, hk, hdirty]
      · rw [due, if_pos hk, if_pos hadded]
        omega
    · simp [due, hk]
  rcases h.delivers_cases turn with hnone | ⟨k', hdelivers, hdirty, hclean⟩
  · rw [hnone, List.count_nil]
    omega
  · rw [hdelivers]
    by_cases heq : k' = k
    · subst heq
      simp [due, hdirty, hclean]
    · rw [List.count_singleton, if_neg (by simpa using heq)]
      omega

theorem Sound.run : ∀ (turns : List (Turn ω κ)) {d : Desk ω κ}, d.Sound → d.Permits turns →
    (d.run turns).Sound
  | [], _, h, _ => h
  | _ :: turns, _, h, hmay => Sound.run turns (h.step hmay.1) hmay.2

theorem queue_run : ∀ (turns : List (Turn ω κ)) (d : Desk ω κ),
    d.queue.queue ++ d.entries turns = d.deliveries turns ++ (d.run turns).queue.queue
  | [], d => by simp [entries, deliveries, run]
  | turn :: turns, d => by
    have ih := queue_run turns (d.step turn)
    rw [entries, deliveries, ← List.append_assoc, queue_step, List.append_assoc, ih,
      List.append_assoc]
    rfl

theorem stopping_run : ∀ (turns : List (Turn ω κ)) (d : Desk ω κ),
    (d.run turns).queue.stopping = (d.queue.stopping || decide (.shutdown ∈ turns))
  | [], d => by simp [run]
  | turn :: turns, d => by
    have ih := stopping_run turns (d.step turn)
    rw [stopping_step, Bool.or_assoc] at ih
    refine Eq.trans ih ?_
    simp [eq_comm]

theorem dirty_run {k : κ} : ∀ (turns : List (Turn ω κ)) {d : Desk ω κ}, k ∈ d.queue.dirty →
    k ∈ d.deliveries turns ∨ k ∈ (d.run turns).queue.dirty
  | [], _, hk => .inr hk
  | turn :: turns, d, hk => by
    rw [deliveries, List.mem_append]
    rcases dirty_step d turn hk with hdelivered | hdirty
    · exact .inl (.inl hdelivered)
    · exact (dirty_run turns hdirty).imp_left .inr

/-- How often a key is added before the queue is shut down. -/
def adds (d : Desk ω κ) (turns : List (Turn ω κ)) (k : κ) : Nat :=
  if d.queue.stopping then 0 else (turns.takeWhile (· ≠ .shutdown)).count (.add k)

theorem adds_cons (d : Desk ω κ) (turn : Turn ω κ) (turns : List (Turn ω κ)) (k : κ) :
    d.adds (turn :: turns) k = (if d.queue.stopping = false ∧ turn = .add k then 1 else 0)
      + (d.step turn).adds turns k := by
  rw [adds, adds, stopping_step]
  rcases d.queue.stopping with _ | _
  · by_cases hshutdown : turn = .shutdown
    · simp [hshutdown]
    · simp [hshutdown, List.count_cons, Nat.add_comm]
  · simp

theorem Sound.count_run (k : κ) : ∀ (turns : List (Turn ω κ)) {d : Desk ω κ}, d.Sound →
    d.Permits turns → (d.deliveries turns).count k + (d.run turns).due k ≤ d.due k + d.adds turns k
  | [], d, _, _ => by simp [deliveries, Desk.run]
  | turn :: turns, d, h, hmay => by
    have ih := Sound.count_run k turns (h.step hmay.1) hmay.2
    have hstep := h.count_step turn k
    rw [deliveries, List.count_append, adds_cons]
    change _ + ((d.step turn).run turns).due k ≤ _
    omega

/-- A key that is added to a queue that is not shut down is delivered later, or still dirty. -/
theorem delivered_of_added {front back : List (Turn ω κ)} {k : κ} (hopen : .shutdown ∉ front) :
    k ∈ (opened.run (front ++ [.add k])).deliveries back ∨
    k ∈ (opened.run (front ++ .add k :: back)).queue.dirty := by
  have hopen : (opened.run front).queue.stopping = false := by
    rw [stopping_run]
    simpa [opened, WorkQueue.empty] using hopen
  have hdirty : k ∈ (opened.run (front ++ [.add k])).queue.dirty := by
    rw [run_append]
    exact mem_dirty_add.2 (.inr ⟨rfl, hopen⟩)
  have hlater := dirty_run back hdirty
  rwa [← run_append, List.append_assoc] at hlater

/-- After any turns of a new queue its sets are consistent and the keys that are held are just those
being processed, none held twice; the keys have been delivered in the order in which they entered,
none more often than it was added before the queue was shut down; and if nothing waits and nothing
is processed, each key added before then has been delivered after it was added. -/
theorem deliveries_sound {turns : List (Turn ω κ)} (h : opened.Permits turns) :
    (opened.run turns).queue.Sound ∧
    ((opened.run turns).held.map Prod.snd).Nodup ∧
    (∀ k, k ∈ (opened.run turns).queue.processing ↔ ∃ w, (w, k) ∈ (opened.run turns).held) ∧
    opened.entries turns = opened.deliveries turns ++ (opened.run turns).queue.queue ∧
    (∀ k, (opened.deliveries turns).count k
      ≤ (turns.takeWhile (· ≠ .shutdown)).count (.add k)) ∧
    ((opened.run turns).queue.queue = [] → (opened.run turns).queue.processing = [] →
      ∀ front k back, turns = front ++ .add k :: back → .shutdown ∉ front →
        k ∈ (opened.run (front ++ [.add k])).deliveries back) := by
  have hsound := Sound.run turns Sound.opened h
  refine ⟨hsound.queue, ?_, fun k => ?_, queue_run turns opened, fun k => ?_, ?_⟩
  · exact hsound.held.nodup_iff.2 hsound.queue.processing_nodup
  · rw [← hsound.held.mem_iff]
    simp
  · have hcount := Sound.count_run k turns Sound.opened h
    have hnothing : (opened : Desk ω κ).due k = 0 := rfl
    have hadds : (opened : Desk ω κ).adds turns k
        = (turns.takeWhile (· ≠ .shutdown)).count (.add k) := rfl
    omega
  · rintro hqueue hprocessing front k back rfl hopen
    refine (delivered_of_added hopen).resolve_right fun hdirty => ?_
    rcases hsound.queue.queued_or_processed k hdirty with hk | hk
    · simp [hqueue] at hk
    · simp [hprocessing] at hk

/-- Two workers share a queue. The first key is added again while it is held, and shutting down does
not keep it from being delivered once more. -/
def shared : List (Turn Bool Nat) := [
  .add 1, .add 2, .get true, .add 1, .get false, .shutdown, .done true 1, .get true, .add 2,
  .done false 2, .done true 1]

theorem shared_delivered : (opened : Desk Bool Nat).Permits shared ∧
    (opened : Desk Bool Nat).deliveries shared = [1, 2, 1] ∧
    1 ∈ ((opened : Desk Bool Nat).run [.add 1, .add 2, .get true, .add 1]).deliveries
      (shared.drop 4) := by
  have hpermits : (opened : Desk Bool Nat).Permits shared := by
    simp [shared, Permits, May, step, opened, WorkQueue.empty, WorkQueue.add, WorkQueue.take?,
      WorkQueue.done, WorkQueue.returns, WorkQueue.shutdown]
  obtain ⟨-, -, -, -, -, hlost⟩ := deliveries_sound hpermits
  exact ⟨hpermits, by decide, hlost (by decide) (by decide) [.add 1, .add 2, .get true] 1
    (shared.drop 4) rfl (by decide)⟩

end Desk

end WorkQueue

end Registrar
