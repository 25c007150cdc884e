import Registrar.Proofs.WorkQueue.Deliveries
import Registrar.Proofs.WorkQueue.Tasks

/-!
# No wake-up is lost

A call changes the queue first and tells the tasks afterwards, and no more than one wake-up is kept
for later, so a task that is woken may find that another one has taken its key. But while a task
sleeps, there are as many wake-ups under way and tasks that are going to look as there are keys, or
more (`Lobby.Safe`). When nothing goes on any more there are none, so no task sleeps beside a key or
through a shutdown (`none_parked_at_rest`). Calls that change the queue and tell so in one go, and
tasks that go on until they sleep, make moves of this kind (`run_add`, `run_tasks`).
-/

namespace Registrar

namespace WorkQueue

/-- A task does not go on before it is polled again, and so can be taken away. -/
def Phase.pauses {κ : Type} : Phase κ → Bool
  | .parked | .woken _ | .served _ => true
  | .arriving | .looking _ | .leaving _ _ => false

/-- A queue with its tasks, while calls are under way. -/
structure Lobby (κ ω : Type) where
  waiting : Waiting κ ω
  /-- How many calls have put a key into the queue and not told anyone yet. -/
  owed : Nat
  /-- How many have shut the queue down and not told anyone yet. -/
  alarms : Nat
  /-- The keys to be added later. -/
  delayed : List κ

namespace Lobby

/-- What may happen next. -/
inductive Move (κ ω : Type) where
  | add (key : κ)
  | addAfter (key : κ) (delay : Nat)
  /-- The wait for a key that was to be added later is over. -/
  | expire (i : Nat)
  | done (key : κ)
  | shutdown
  /-- A call that has put a key into the queue wakes a task. -/
  | tell
  /-- A call that has shut the queue down wakes all tasks. -/
  | tellAll
  /-- A task begins to get a key. -/
  | arrive (task : ω)
  /-- A task goes on. -/
  | go (task : ω)
  /-- A task that pauses is taken away. -/
  | cancel (task : ω)
  deriving DecidableEq

variable [DecidableEq κ] [DecidableEq ω] {l : Lobby κ ω} {w : Waiting κ ω} {move : Move κ ω}

def opened : Lobby κ ω :=
  ⟨.start, 0, 0, []⟩

/-- A key is put into the queue, if it enters, and the call has yet to tell so. -/
def put (l : Lobby κ ω) (queue : WorkQueue κ) (enters : Bool) : Lobby κ ω :=
  { l with waiting := { l.waiting with queue }, owed := l.owed + enters.toNat }

def add (l : Lobby κ ω) (k : κ) : Lobby κ ω :=
  l.put (l.waiting.queue.add k) (l.waiting.queue.enqueues k)

def step (l : Lobby κ ω) : Move κ ω → Lobby κ ω
  | .add k => l.add k
  | .addAfter k delay => if delay = 0 then l.add k else { l with delayed := l.delayed ++ [k] }
  | .expire i =>
    match l.delayed[i]? with
    | some k => { l with delayed := l.delayed.eraseIdx i }.add k
    | none => l
  | .done k => l.put (l.waiting.queue.done k) (l.waiting.queue.returns k)
  | .shutdown => { l with
      waiting := { l.waiting with queue := l.waiting.queue.shutdown }
      alarms := l.alarms + 1 }
  | .tell =>
    match l.owed with
    | 0 => l
    | owed + 1 => { l with waiting := l.waiting.wakeOne, owed }
  | .tellAll =>
    match l.alarms with
    | 0 => l
    | alarms + 1 => { l with waiting := l.waiting.wakeAll, alarms }
  | .arrive t => if (l.waiting.phase? t).isSome then l else { l with waiting := l.waiting.arrive t }
  | .go t => { l with waiting := (l.waiting.step? t).getD l.waiting }
  | .cancel t =>
    if (l.waiting.phase? t).any Phase.pauses then { l with waiting := l.waiting.cancel t } else l

def run (l : Lobby κ ω) (moves : List (Move κ ω)) : Lobby κ ω :=
  moves.foldl step l

/-- Nothing can go on: each call has told all it has to tell, and no task can take a step. -/
structure AtRest (l : Lobby κ ω) : Prop where
  owed : l.owed = 0
  alarms : l.alarms = 0
  tasks : ∀ t, l.waiting.step? t = none

/-- While a task sleeps, there is someone up for each key that is queued, and someone to tell it
that the queue has been shut down. -/
structure Safe (l : Lobby κ ω) : Prop where
  sound : l.waiting.Sound
  covered : ∀ t, l.waiting.phase? t = some .parked →
    l.waiting.queue.queue.length ≤ l.waiting.load + l.owed
  alarmed : ∀ t, l.waiting.phase? t = some .parked → l.waiting.queue.stopping = true → 0 < l.alarms

namespace Safe

omit [DecidableEq κ] in
theorem opened : (opened : Lobby κ ω).Safe where
  sound := ⟨List.nodup_nil, List.nodup_nil, fun t => by simp [Lobby.opened, Waiting.start,
    Waiting.phase?], nofun⟩
  covered _ := nofun
  alarmed _ := nofun

omit [DecidableEq κ] in
theorem put {queue : WorkQueue κ} {enters : Bool} (h : l.Safe)
    (hlength : queue.queue.length ≤ l.waiting.queue.queue.length + enters.toNat)
    (hstopping : queue.stopping = l.waiting.queue.stopping) : (l.put queue enters).Safe where
  sound := ⟨h.sound.ids_nodup, h.sound.registered_nodup, h.sound.listed, h.sound.permit⟩
  covered t ht := by
    have hcovered := h.covered t ht
    change queue.queue.length ≤ l.waiting.load + (l.owed + enters.toNat)
    omega
  alarmed t ht hstop := h.alarmed t ht (hstopping.symm.trans hstop)

theorem add (h : l.Safe) (k : κ) : (l.add k).Safe := by
  refine h.put ?_ (stopping_add _ k)
  rw [queue_add]
  cases l.waiting.queue.enqueues k <;> simp

omit [DecidableEq κ] in
/-- Calls that have told what they had to tell, and tasks that have gone on. -/
theorem keeps {n owed alarms : Nat} (h : l.Safe) (hk : l.waiting.Keeps w n)
    (howed : l.owed ≤ n + owed) (halarms : ∀ t, w.phase? t = some .parked → l.alarms ≤ alarms) :
    ({ l with waiting := w, owed, alarms } : Lobby κ ω).Safe where
  sound := hk.sound
  covered t ht := by
    have hcovered := h.covered t (hk.parked t ht)
    have hload := hk.load ⟨t, ht⟩
    change w.queue.queue.length ≤ w.load + owed
    rw [hk.queue]
    omega
  alarmed t ht hstopping := by
    change w.queue.stopping = true at hstopping
    rw [hk.queue] at hstopping
    exact Nat.lt_of_lt_of_le (h.alarmed t (hk.parked t ht) hstopping) (halarms t ht)

omit [DecidableEq κ] in
theorem goes (h : l.Safe) (hk : l.waiting.Keeps w 0) : ({ l with waiting := w } : Lobby κ ω).Safe :=
  h.keeps hk (Nat.le_add_left _ _) fun _ _ => Nat.le_refl _

theorem look {t : ω} {u : Option Wakeup} (h : l.Safe)
    (hp : l.waiting.phase? t = some (.looking u)) :
    ({ l with waiting := l.waiting.look t u } : Lobby κ ω).Safe := by
  rcases hqueue : l.waiting.queue.queue with _ | ⟨k, rest⟩
  · obtain ⟨hsound, hsame, hparked⟩ := h.sound.look_none hp (take?_of_nil hqueue)
    refine ⟨hsound, fun t' _ => ?_, fun t' ht' hstopping => ?_⟩
    · change (l.waiting.look t u).queue.queue.length ≤ _
      rw [hsame, hqueue]
      exact Nat.zero_le _
    · change (l.waiting.look t u).queue.stopping = true at hstopping
      rw [hsame] at hstopping
      exact h.alarmed t' (hparked hstopping t' ht') hstopping
  · have htake : ∃ queue, l.waiting.queue.take? = some (k, queue) ∧ queue.queue = rest ∧
        queue.stopping = l.waiting.queue.stopping := by
      rw [take?, hqueue]
      exact ⟨_, rfl, rfl, rfl⟩
    obtain ⟨queue, htake, hrest, hstop⟩ := htake
    obtain ⟨hsound, hsame, hload, hparked⟩ := h.sound.look_key hp htake
    refine ⟨hsound, fun t' ht' => ?_, fun t' ht' hstopping => ?_⟩
    · have hcovered := h.covered t' (hparked t' ht')
      change (l.waiting.look t u).queue.queue.length ≤ (l.waiting.look t u).load + l.owed
      rw [hqueue, List.length_cons] at hcovered
      rw [hsame, hrest]
      omega
    · change (l.waiting.look t u).queue.stopping = true at hstopping
      rw [hsame, hstop] at hstopping
      exact h.alarmed t' (hparked t' ht') hstopping

theorem go (h : l.Safe) (t : ω) :
    ({ l with waiting := (l.waiting.step? t).getD l.waiting } : Lobby κ ω).Safe := by
  cases hp : l.waiting.phase? t with
  | none =>
    rw [Waiting.step?, hp]
    exact h
  | some p =>
    rw [Waiting.step?, hp]
    cases p with
    | arriving => exact h.goes (h.sound.register hp)
    | looking u => exact h.look hp
    | woken v =>
      refine h.goes (h.sound.keeps_setPhase hp ?_ nofun ?_)
      · simp [Phase.Listens, Phase.wakeup?]
      · cases v <;> simp [Phase.load, Wakeup.passed]
    | leaving key u =>
      exact h.goes ((h.sound.without_served hp key).keeps_leave h.sound hp rfl rfl)
    | parked | served => exact h

theorem cancel (h : l.Safe) (t : ω) : (l.step (.cancel t)).Safe := by
  rw [step]
  split
  · rename_i hpauses
    obtain ⟨p, hp, hpauses⟩ := (Option.any_eq_true _ _).1 hpauses
    have hwithout := h.sound.without_remove t
    cases p with
    | parked | woken =>
      rw [Waiting.cancel, hp]
      exact h.goes (hwithout.keeps_leave h.sound hp rfl rfl)
    | served key =>
      rw [Waiting.cancel, hp]
      exact h.goes (hwithout.keeps_served h.sound hp)
    | arriving | looking | leaving => cases hpauses
  · exact h

theorem step (h : l.Safe) (move : Move κ ω) : (l.step move).Safe := by
  cases move with
  | add k => exact h.add k
  | addAfter k delay =>
    rw [Lobby.step]
    split
    · exact h.add k
    · exact ⟨h.sound, h.covered, h.alarmed⟩
  | expire i =>
    rw [Lobby.step]
    split
    · exact add (l := { l with delayed := l.delayed.eraseIdx i }) ⟨h.sound, h.covered, h.alarmed⟩ _
    · exact h
  | done k =>
    refine h.put ?_ (stopping_done _ k)
    rw [queue_done]
    cases l.waiting.queue.returns k <;> simp
  | shutdown =>
    exact ⟨⟨h.sound.ids_nodup, h.sound.registered_nodup, h.sound.listed, h.sound.permit⟩, h.covered,
      fun _ _ _ => Nat.succ_pos _⟩
  | tell =>
    rw [Lobby.step]
    split
    · exact h
    · rename_i howed
      exact h.keeps h.sound.wakeOne (by omega) fun _ _ => Nat.le_refl _
  | tellAll =>
    rw [Lobby.step]
    split
    · exact h
    · obtain ⟨hkeeps, hnone⟩ := h.sound.wakeAll
      exact h.keeps hkeeps (Nat.le_add_left _ _) fun t ht => absurd ht (hnone t)
  | arrive t =>
    rw [Lobby.step]
    split
    · exact h
    · rename_i hnew
      exact h.goes (h.sound.arrive (Option.not_isSome_iff_eq_none.1 hnew))
  | go t => exact h.go t
  | cancel t => exact h.cancel t

theorem run (h : l.Safe) (moves : List (Move κ ω)) : (l.run moves).Safe := by
  induction moves generalizing l with
  | nil => exact h
  | cons move moves ih => exact ih (h.step move)

end Safe

/-- Tasks that cannot go on are not up for anything. -/
theorem load_of_rest (hids : (w.tasks.map Prod.fst).Nodup) (hrest : ∀ t, w.step? t = none) :
    w.load = 0 := by
  refine Waiting.load_eq_zero fun ⟨t, p⟩ he => ?_
  have hp : w.phase? t = some p := lookup_of_mem hids he
  have hnone := hrest t
  rw [Waiting.step?, hp] at hnone
  cases p with
  | parked | served => rfl
  | arriving | looking | woken | leaving => cases hnone

/-- However calls and tasks have followed each other, once nothing can go on any more no task sleeps
while a key is queued or the queue has been shut down. -/
theorem none_parked_at_rest (moves : List (Move κ ω))
    (hrest : ((opened : Lobby κ ω).run moves).AtRest)
    (hwork : ((opened : Lobby κ ω).run moves).waiting.queue.queue ≠ [] ∨
      ((opened : Lobby κ ω).run moves).waiting.queue.stopping = true) (t : ω) :
    ((opened : Lobby κ ω).run moves).waiting.phase? t ≠ some .parked := by
  have hsafe := Safe.opened.run moves
  intro hparked
  rcases hwork with hqueued | hstopping
  · have hcovered := hsafe.covered t hparked
    rw [load_of_rest hsafe.sound.ids_nodup hrest.tasks, hrest.owed, Nat.add_zero, Nat.le_zero]
      at hcovered
    exact hqueued (List.length_eq_zero_iff.1 hcovered)
  · have halarmed := hsafe.alarmed t hparked hstopping
    rw [hrest.alarms] at halarmed
    exact Nat.lt_irrefl 0 halarmed

/-- The first key is gone when the task it has woken looks for it. That one sleeps again, and of the
next two wake-ups it gets one while the other is left behind. -/
def outrun : List (Move Nat Bool) :=
  [.arrive true, .go true, .go true, .add 1, .arrive false, .go false, .go false, .go false, .tell,
    .go true, .go true, .go true, .add 2, .add 3, .tell, .tell] ++ List.replicate 4 (.go true)

theorem outrun_served : ((opened : Lobby Nat Bool).run outrun).AtRest ∧
    ((opened : Lobby Nat Bool).run (outrun.take 12)).waiting.phase? true = some .parked ∧
    ((opened : Lobby Nat Bool).run outrun).waiting.queue.queue = [3] ∧
    ∀ t, ((opened : Lobby Nat Bool).run outrun).waiting.phase? t ≠ some .parked := by
  have hrest : ((opened : Lobby Nat Bool).run outrun).AtRest :=
    ⟨by decide, by decide, fun t => by cases t <;> decide⟩
  have hqueued : ((opened : Lobby Nat Bool).run outrun).waiting.queue.queue = [3] := by decide
  have hwork : ((opened : Lobby Nat Bool).run outrun).waiting.queue.queue ≠ [] := by
    rw [hqueued]
    exact List.cons_ne_nil 3 []
  exact ⟨hrest, by decide, hqueued, none_parked_at_rest outrun hrest (.inl hwork)⟩

theorem run_add (w : Waiting κ ω) (delayed : List κ) (k : κ) :
    (⟨w, 0, 0, delayed⟩ : Lobby κ ω).run [.add k, .tell] = ⟨w.add k, 0, 0, delayed⟩ := by
  rw [run, List.foldl_cons, List.foldl_cons, List.foldl_nil, Waiting.add]
  simp only [step, add, put]
  cases w.queue.enqueues k <;> rfl

theorem run_done (w : Waiting κ ω) (delayed : List κ) (k : κ) :
    (⟨w, 0, 0, delayed⟩ : Lobby κ ω).run [.done k, .tell] = ⟨w.done k, 0, 0, delayed⟩ := by
  rw [run, List.foldl_cons, List.foldl_cons, List.foldl_nil, Waiting.done]
  simp only [step, put]
  cases w.queue.returns k <;> rfl

theorem run_shutdown (w : Waiting κ ω) (delayed : List κ) :
    (⟨w, 0, 0, delayed⟩ : Lobby κ ω).run [.shutdown, .tellAll] = ⟨w.shutdown, 0, 0, delayed⟩ :=
  rfl

theorem run_task (fuel : Nat) (w : Waiting κ ω) (delayed : List κ) (t : ω) : ∃ n,
    (⟨w, 0, 0, delayed⟩ : Lobby κ ω).run (List.replicate n (.go t))
      = ⟨w.runTask fuel t, 0, 0, delayed⟩ := by
  induction fuel generalizing w with
  | zero => exact ⟨0, rfl⟩
  | succ fuel ih =>
    rcases hstep : w.step? t with _ | after
    · exact ⟨0, by rw [Waiting.runTask, hstep]; rfl⟩
    · obtain ⟨n, hn⟩ := ih after
      have hgo : (⟨w, 0, 0, delayed⟩ : Lobby κ ω).step (.go t) = ⟨after, 0, 0, delayed⟩ := by
        simp [step, hstep]
      refine ⟨n + 1, ?_⟩
      rw [Waiting.runTask, hstep, ← hn, List.replicate_succ, run, List.foldl_cons, hgo]
      rfl

/-- Tasks that go on one after the other. -/
theorem run_tasks (order : List ω) (w : Waiting κ ω) (delayed : List κ) :
    ∃ moves, (⟨w, 0, 0, delayed⟩ : Lobby κ ω).run moves = ⟨w.run order, 0, 0, delayed⟩ := by
  induction order generalizing w with
  | nil => exact ⟨[], rfl⟩
  | cons t order ih =>
    obtain ⟨n, hn⟩ := run_task 8 w delayed t
    obtain ⟨moves, hmoves⟩ := ih (w.runTask 8 t)
    refine ⟨List.replicate n (.go t) ++ moves, ?_⟩
    rw [run, List.foldl_append]
    change (run _ _).run moves = _
    rw [hn, hmoves]
    rfl

end Lobby

end WorkQueue

end Registrar
