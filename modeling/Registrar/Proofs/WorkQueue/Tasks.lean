import Registrar.Proofs.Lookup
import Registrar.WorkQueue.Waiting

/-!
# Tasks that sleep and are woken

Tasks register before they look into the queue, so one goes to sleep only when it has seen the queue
empty (`Sound.look_none`). A wake-up meant for a single task is not lost while one sleeps: a task
that is woken goes on to look for a key itself, and one that has got a key already, or is taken
away, wakes another one (`Without.keeps_leave`).
-/

namespace Registrar

namespace WorkQueue

variable {κ ω : Type}

/-- How many tasks are woken by a wake-up that is passed on. -/
def Wakeup.passed : Option Wakeup → Nat
  | some .single => 1
  | _ => 0

namespace Phase

variable {p : Phase κ} {u : Wakeup}

/-- For how many keys a task is up: it looks for one itself, or wakes another task. -/
def load : Phase κ → Nat
  | .arriving => 1
  | .looking u => 1 + Wakeup.passed u
  | .woken u => Wakeup.passed (some u)
  | .leaving _ u => Wakeup.passed u
  | .parked | .served _ => 0

/-- A task is registered and has not been woken. -/
def Listens (p : Phase κ) : Prop :=
  p.wakeup? = some none

theorem listens_parked : (parked : Phase κ).Listens :=
  rfl

theorem not_listens_wake (h : p.Listens) : ¬(p.wake u).Listens := by
  rcases p with _ | (_ | v) | _ | v | ⟨k, _ | v⟩ | k <;> simp_all [Listens, wakeup?, wake]

theorem load_wake (h : p.Listens) : (p.wake u).load = p.load + Wakeup.passed (some u) := by
  rcases p with _ | (_ | v) | _ | v | ⟨k, _ | v⟩ | k <;> simp_all [Listens, wakeup?, wake, load]
  all_goals simp [Wakeup.passed]

end Phase

namespace Waiting

variable [DecidableEq ω] {w w₁ w₂ : Waiting κ ω} {t t' : ω} {p old : Phase κ} {u : Option Wakeup}
  {m n : Nat}

def load (w : Waiting κ ω) : Nat :=
  w.tasks.foldr (fun e n => e.2.load + n) 0

theorem phase?_setPhase (w : Waiting κ ω) (t t' : ω) (p : Phase κ) :
    (w.setPhase t p).phase? t' = (w.phase? t').map fun q => if t' = t then p else q := by
  simpa [phase?, setPhase] using lookup_replace t' t p w.tasks

theorem phase?_setPhase_self (hp : w.phase? t = some old) (p : Phase κ) :
    (w.setPhase t p).phase? t = some p := by
  simp [phase?_setPhase, hp]

theorem phase?_setPhase_of_ne (hne : t' ≠ t) (p : Phase κ) :
    (w.setPhase t p).phase? t' = w.phase? t' := by
  simp [phase?_setPhase, hne]

theorem phase?_remove_of_ne (hne : t' ≠ t) : (w.remove t).phase? t' = w.phase? t' :=
  lookup_filter_of_ne hne w.tasks

omit [DecidableEq ω] in
theorem load_of_perm (hperm : w.tasks.Perm ((t, p) :: w₁.tasks)) : w.load = p.load + w₁.load := by
  have hcomm : LeftCommutative fun (e : ω × Phase κ) n => e.2.load + n :=
    ⟨fun _ _ _ => Nat.add_left_comm _ _ _⟩
  exact hperm.foldr_eq 0

omit [DecidableEq ω] in
theorem load_eq_zero (h : ∀ e ∈ w.tasks, e.2.load = 0) : w.load = 0 := by
  unfold load
  generalize w.tasks = tasks at h
  induction tasks with
  | nil => rfl
  | cons e tasks ih =>
    rw [List.foldr_cons, h e List.mem_cons_self, Nat.zero_add]
    exact ih fun e he => h e (List.mem_cons_of_mem _ he)

theorem load_remove (hids : (w.tasks.map Prod.fst).Nodup) (hp : w.phase? t = some old) :
    w.load = old.load + (w.remove t).load :=
  load_of_perm (perm_of_lookup hids hp)

theorem ids_setPhase (w : Waiting κ ω) (t : ω) (p : Phase κ) :
    (w.setPhase t p).tasks.map Prod.fst = w.tasks.map Prod.fst := by
  simpa [setPhase] using keys_replace t p w.tasks

/-- A task that goes on, while nothing else happens to the tasks. -/
theorem load_setPhase {x : Waiting κ ω} (hids : (w.tasks.map Prod.fst).Nodup)
    (hp : w.phase? t = some old) (htasks : x.tasks = w.tasks) (p : Phase κ) :
    (x.setPhase t p).load + old.load = w.load + p.load := by
  have hsame : x.phase? t = w.phase? t := by rw [phase?, phase?, htasks]
  have hrest : (remove (x.setPhase t p) t).load = (w.remove t).load := by
    have hfilter := filter_replace t p w.tasks
    simp only [beq_iff_eq] at hfilter
    simp only [load, remove, setPhase, htasks, hfilter]
  have hbefore := load_remove hids hp
  have hafter := load_remove (by rwa [ids_setPhase, htasks])
    (phase?_setPhase_self (hsame.trans hp) p)
  rw [hrest] at hafter
  omega

/-- The tasks that wait to be woken are those registered, and no wake-up is left behind for later
while there is one of them. -/
structure Sound (w : Waiting κ ω) : Prop where
  ids_nodup : (w.tasks.map Prod.fst).Nodup
  registered_nodup : w.registered.Nodup
  listed : ∀ t, t ∈ w.registered ↔ ∃ p, w.phase? t = some p ∧ p.Listens
  permit : w.permit = true → w.registered = []

/-- Nobody has gone to sleep, and while someone sleeps the others are up for so many keys more. -/
structure Keeps (w w' : Waiting κ ω) (n : Nat) : Prop where
  sound : w'.Sound
  queue : w'.queue = w.queue
  parked : ∀ t, w'.phase? t = some .parked → w.phase? t = some .parked
  load : (∃ t, w'.phase? t = some .parked) → w.load + n ≤ w'.load

theorem Sound.keeps (h : w.Sound) : w.Keeps w 0 :=
  ⟨h, rfl, fun _ => id, fun _ => Nat.le_refl _⟩

theorem Keeps.trans (h₁ : w.Keeps w₁ m) (h₂ : w₁.Keeps w₂ n) : w.Keeps w₂ (m + n) where
  sound := h₂.sound
  queue := h₂.queue.trans h₁.queue
  parked t ht := h₁.parked t (h₂.parked t ht)
  load := by
    rintro ⟨t, ht⟩
    have hfirst := h₁.load ⟨t, h₂.parked t ht⟩
    have hsecond := h₂.load ⟨t, ht⟩
    omega

theorem Sound.not_registered (h : w.Sound) (hp : w.phase? t = some p) (hlistens : ¬p.Listens) :
    t ∉ w.registered := by
  intro ht
  obtain ⟨q, hq, hlistens'⟩ := (h.listed t).1 ht
  obtain rfl := Option.some.inj (hp.symm.trans hq)
  exact hlistens hlistens'

theorem Sound.registered_of_parked (h : w.Sound) (ht : w.phase? t = some .parked) :
    t ∈ w.registered :=
  (h.listed t).2 ⟨.parked, ht, Phase.listens_parked⟩

/-- Only one task is concerned by what happens. -/
structure Concerns (t : ω) (w w₁ : Waiting κ ω) : Prop where
  phase : ∀ t' ≠ t, w₁.phase? t' = w.phase? t'
  registered : ∀ t' ≠ t, (t' ∈ w₁.registered ↔ t' ∈ w.registered)

theorem Concerns.listed (hc : Concerns t w w₁) (h : w.Sound)
    (hself : t ∈ w₁.registered ↔ ∃ p, w₁.phase? t = some p ∧ p.Listens) (t' : ω) :
    t' ∈ w₁.registered ↔ ∃ p, w₁.phase? t' = some p ∧ p.Listens := by
  by_cases heq : t' = t
  · rw [heq]
    exact hself
  · rw [hc.phase t' heq, hc.registered t' heq]
    exact h.listed t'

theorem Concerns.parked (hc : Concerns t w w₁) (hself : w₁.phase? t ≠ some .parked) (t' : ω)
    (ht' : w₁.phase? t' = some .parked) : w.phase? t' = some .parked := by
  by_cases heq : t' = t
  · exact absurd (heq ▸ ht') hself
  · rwa [hc.phase t' heq] at ht'

theorem concerns_setPhase (w : Waiting κ ω) (t : ω) (p : Phase κ) :
    Concerns t w (w.setPhase t p) where
  phase _ hne := phase?_setPhase_of_ne hne p
  registered _ _ := .rfl

/-- A task goes on without giving up its registration, or without having one. -/
theorem Sound.setPhase (h : w.Sound) (hp : w.phase? t = some old)
    (hlistens : p.Listens ↔ old.Listens) : (w.setPhase t p).Sound where
  ids_nodup := by
    rw [ids_setPhase]
    exact h.ids_nodup
  registered_nodup := h.registered_nodup
  listed := by
    refine (concerns_setPhase w t p).listed h ((h.listed t).trans ?_)
    simp [phase?_setPhase_self hp, hp, hlistens]
  permit := h.permit

theorem Sound.keeps_setPhase (h : w.Sound) (hp : w.phase? t = some old)
    (hlistens : p.Listens ↔ old.Listens) (hawake : p ≠ .parked) (hload : old.load ≤ p.load) :
    w.Keeps (w.setPhase t p) 0 where
  sound := h.setPhase hp hlistens
  queue := rfl
  parked := by
    refine (concerns_setPhase w t p).parked ?_
    simpa [phase?_setPhase_self hp] using hawake
  load _ := by
    have hmoved := load_setPhase h.ids_nodup hp rfl p
    omega

/-! ## Waking -/

theorem wake_eq (hp : w.phase? t = some p) (v : Wakeup) : w.wake t v = w.setPhase t (p.wake v) := by
  rw [wake, hp]

theorem Sound.wake {rest : List ω} (h : w.Sound) (hr : w.registered = t :: rest) (v : Wakeup) :
    w.Keeps (wake { w with registered := rest } t v) (Wakeup.passed (some v)) := by
  have hnodup := h.registered_nodup
  rw [hr, List.nodup_cons] at hnodup
  obtain ⟨p, hp, hlistens⟩ := (h.listed t).1 (hr ▸ List.mem_cons_self)
  have hp' : phase? { w with registered := rest } t = some p := hp
  rw [wake_eq hp']
  have hself := phase?_setPhase_self hp' (p.wake v)
  have hconcerns : Concerns t w (Waiting.setPhase { w with registered := rest } t (p.wake v)) := by
    refine ⟨fun _ hne => phase?_setPhase_of_ne hne _, fun t' hne => ?_⟩
    change t' ∈ rest ↔ _
    rw [hr, List.mem_cons, or_iff_right hne]
  have hsilent := Phase.not_listens_wake (u := v) hlistens
  constructor
  · constructor
    · rw [ids_setPhase]
      exact h.ids_nodup
    · exact hnodup.2
    · refine hconcerns.listed h ?_
      change t ∈ rest ↔ _
      rw [hself]
      simpa [hsilent] using hnodup.1
    · intro hpermit
      rw [h.permit hpermit] at hr
      cases hr
  · rfl
  · refine hconcerns.parked ?_
    rw [hself, ne_eq, Option.some.injEq]
    exact fun hparked => hsilent (hparked ▸ Phase.listens_parked)
  · intro _
    have hmoved := load_setPhase h.ids_nodup hp (x := { w with registered := rest }) rfl (p.wake v)
    rw [Phase.load_wake hlistens] at hmoved
    omega

/-- A wake-up for a single task reaches one, or nobody sleeps. -/
theorem Sound.wakeOne (h : w.Sound) : w.Keeps w.wakeOne 1 := by
  rcases hr : w.registered with _ | ⟨t, rest⟩
  -- the wake-up is left behind, and counts for nobody: who sleeps is registered
  · have hkept : w.wakeOne = { w with permit := true } := by rw [Waiting.wakeOne, hr]
    rw [hkept]
    refine ⟨⟨h.ids_nodup, h.registered_nodup, h.listed, fun _ => hr⟩, rfl, fun _ => id, ?_⟩
    rintro ⟨t, ht⟩
    have hregistered := h.registered_of_parked (t := t) ht
    simp [hr] at hregistered
  · rw [Waiting.wakeOne, hr]
    exact h.wake hr .single

theorem wake_registered (w : Waiting κ ω) (t : ω) (v : Wakeup) (rest : List ω) :
    wake { w with registered := rest } t v = { w.wake t v with registered := rest } := by
  have hsame : phase? { w with registered := rest } t = w.phase? t := rfl
  rw [wake, wake, hsame]
  split <;> rfl

theorem wakeAll_of_cons {rest : List ω} (hr : w.registered = t :: rest) :
    w.wakeAll = wakeAll (wake { w with registered := rest } t .everyone) := by
  rw [wakeAll, hr, List.foldl_cons, wakeAll, wake_registered w t _ rest, wake_registered w t _ []]

/-- A wake-up for everyone reaches all that sleep. -/
theorem Sound.wakeAll (h : w.Sound) :
    w.Keeps w.wakeAll 0 ∧ ∀ t, w.wakeAll.phase? t ≠ some .parked := by
  induction hr : w.registered generalizing w with
  | nil =>
    have hnone : w.wakeAll = w := by
      rw [Waiting.wakeAll, hr, List.foldl_nil, ← hr]
    rw [hnone]
    refine ⟨h.keeps, fun t ht => ?_⟩
    have hregistered := h.registered_of_parked ht
    simp [hr] at hregistered
  | cons t rest ih =>
    have hwake := h.wake hr .everyone
    have hrest : (Waiting.wake { w with registered := rest } t .everyone).registered = rest := by
      rw [wake_registered]
    obtain ⟨hkeeps, hnone⟩ := ih hwake.sound hrest
    rw [wakeAll_of_cons hr]
    exact ⟨hwake.trans hkeeps, hnone⟩

/-! ## Arriving and leaving -/

theorem phase?_arrive_self (hnew : w.phase? t = none) : (w.arrive t).phase? t = some .arriving := by
  rw [phase?] at hnew
  simp [phase?, arrive, List.lookup_append, hnew]

theorem phase?_arrive_of_ne (hne : t' ≠ t) : (w.arrive t).phase? t' = w.phase? t' := by
  have hne : (t' == t) = false := beq_false_of_ne hne
  simp [phase?, arrive, List.lookup_append, List.lookup_cons, hne]

theorem Sound.arrive (h : w.Sound) (hnew : w.phase? t = none) : w.Keeps (w.arrive t) 0 := by
  have hself := phase?_arrive_self hnew
  have hconcerns : Concerns t w (w.arrive t) :=
    ⟨fun _ hne => phase?_arrive_of_ne hne, fun _ _ => .rfl⟩
  have hids : t ∉ w.tasks.map Prod.fst := by
    intro ht
    obtain ⟨e, he, rfl⟩ := List.mem_map.1 ht
    simpa using List.lookup_eq_none_iff.1 hnew e he
  constructor
  · constructor
    · rw [Waiting.arrive, List.map_append, List.nodup_append]
      exact ⟨h.ids_nodup, by simp, by simpa using fun t' ht' => ne_of_mem_of_not_mem ht' hids⟩
    · exact h.registered_nodup
    · refine hconcerns.listed h ((h.listed t).trans ?_)
      simp [hself, hnew, Phase.Listens, Phase.wakeup?]
    · exact h.permit
  · rfl
  · exact hconcerns.parked (by simp [hself])
  · intro _
    have hperm : (w.arrive t).tasks.Perm ((t, .arriving) :: w.tasks) :=
      List.perm_append_singleton _ _
    have hmore := load_of_perm hperm
    omega

theorem Sound.register (h : w.Sound) (hp : w.phase? t = some .arriving) :
    w.Keeps (w.register t) 0 := by
  by_cases hpermit : w.permit = true
  · have hsound : ({ w with permit := false } : Waiting κ ω).Sound :=
      ⟨h.ids_nodup, h.registered_nodup, h.listed, nofun⟩
    rw [Waiting.register, if_pos hpermit]
    have hkeeps := hsound.keeps_setPhase (p := .looking (some .kept)) hp
      (by simp [Phase.Listens, Phase.wakeup?]) nofun (by simp [Phase.load])
    exact ⟨hkeeps.sound, hkeeps.queue, hkeeps.parked, hkeeps.load⟩
  · rw [Waiting.register, if_neg hpermit]
    have hunlisted := h.not_registered hp (by simp [Phase.Listens, Phase.wakeup?])
    have hp' : phase? { w with registered := w.registered ++ [t] } t = some .arriving := hp
    have hself := phase?_setPhase_self hp' (.looking none)
    have hconcerns : Concerns t w
        (Waiting.setPhase { w with registered := w.registered ++ [t] } t (.looking none)) := by
      refine ⟨fun _ hne => phase?_setPhase_of_ne hne _, fun t' hne => ?_⟩
      change t' ∈ w.registered ++ [t] ↔ _
      rw [List.mem_append, List.mem_singleton, or_iff_left hne]
    constructor
    · constructor
      · rw [ids_setPhase]
        exact h.ids_nodup
      · refine List.nodup_append.2 ⟨h.registered_nodup, by simp, ?_⟩
        simpa using fun t' ht' => ne_of_mem_of_not_mem ht' hunlisted
      · refine hconcerns.listed h ?_
        change t ∈ w.registered ++ [t] ↔ _
        simp [hself, Phase.Listens, Phase.wakeup?]
      · exact fun h => absurd h hpermit
    · rfl
    · exact hconcerns.parked (by simp [hself])
    · intro _
      have hmoved := load_setPhase (x := { w with registered := w.registered ++ [t] }) h.ids_nodup
        hp rfl (.looking none)
      simp only [Phase.load, Wakeup.passed] at hmoved
      omega

/-- What is left of the tasks when one has taken its key or is taken away, with its registration. -/
structure Without (w : Waiting κ ω) (t : ω) (w₁ : Waiting κ ω) : Prop where
  queue : w₁.queue = w.queue
  permit : w₁.permit = w.permit
  registered : w₁.registered = w.registered
  ids_nodup : (w₁.tasks.map Prod.fst).Nodup
  load : w₁.load = (w.remove t).load
  silent : ∀ p, w₁.phase? t = some p → ¬p.Listens
  other : ∀ t' ≠ t, w₁.phase? t' = w.phase? t'

theorem Sound.without_remove (h : w.Sound) (t : ω) : w.Without t (w.remove t) where
  queue := rfl
  permit := rfl
  registered := rfl
  ids_nodup := h.ids_nodup.sublist (List.filter_sublist.map Prod.fst)
  load := rfl
  silent p hp := by
    change (w.tasks.filter (·.1 != t)).lookup t = some p at hp
    simp [lookup_filter_self] at hp
  other _ hne := phase?_remove_of_ne hne

theorem Sound.without_served (h : w.Sound) (hp : w.phase? t = some old) (key : Option κ) :
    w.Without t (w.setPhase t (.served key)) where
  queue := rfl
  permit := rfl
  registered := rfl
  ids_nodup := by
    rw [ids_setPhase]
    exact h.ids_nodup
  load := by
    have hmoved := load_setPhase h.ids_nodup hp rfl (.served key)
    have hremoved := load_remove h.ids_nodup hp
    have hserved : (Phase.served key).load = 0 := rfl
    omega
  silent p hserved := by
    rw [phase?_setPhase_self hp, Option.some.injEq] at hserved
    subst hserved
    simp [Phase.Listens, Phase.wakeup?]
  other _ hne := phase?_setPhase_of_ne hne _

namespace Without

theorem sound (h : w.Sound) (hw : w.Without t w₁) :
    ({ w₁ with registered := w₁.registered.filter (· != t) } : Waiting κ ω).Sound where
  ids_nodup := hw.ids_nodup
  registered_nodup := hw.registered ▸ h.registered_nodup.filter _
  listed := by
    refine Concerns.listed (t := t) ⟨hw.other, fun t' hne => ?_⟩ h ?_
    · simp [hw.registered, hne]
    · change _ ↔ ∃ p, w₁.phase? t = some p ∧ p.Listens
      simpa using hw.silent
  permit hpermit := by
    rw [hw.registered, h.permit (hw.permit ▸ hpermit)]
    rfl

theorem parked (hw : w.Without t w₁) : ∀ t', w₁.phase? t' = some .parked →
    w.phase? t' = some .parked :=
  Concerns.parked (t := t) ⟨hw.other, fun _ _ => by rw [hw.registered]⟩
    fun hparked => hw.silent _ hparked Phase.listens_parked

/-- A task that does not wait to be woken has no registration to give up. -/
theorem sound_of_silent (h : w.Sound) (hw : w.Without t w₁) (hp : w.phase? t = some old)
    (hlistens : ¬old.Listens) : w₁.Sound := by
  have hunlisted : t ∉ w₁.registered := by
    rw [hw.registered]
    exact h.not_registered hp hlistens
  have hsame : w₁.registered.filter (· != t) = w₁.registered := by
    refine List.filter_eq_self.2 fun t' ht' => bne_iff_ne.2 ?_
    rintro rfl
    exact hunlisted ht'
  have hsound := hw.sound h
  rwa [hsame] at hsound

/-- A task that leaves passes on what it was up for. -/
theorem keeps_leave (h : w.Sound) (hw : w.Without t w₁) (hp : w.phase? t = some old)
    (hu : old.wakeup? = some u) (hload : old.load = Wakeup.passed u) :
    w.Keeps (w₁.leave t u) 0 := by
  have hbefore := load_remove h.ids_nodup hp
  have hafter := hw.load
  rcases u with _ | v
  -- it has not been woken, so it gives up its registration
  · refine ⟨hw.sound h, hw.queue, hw.parked, fun _ => ?_⟩
    change w.load + 0 ≤ w₁.load
    rw [hload] at hbefore
    simp only [Wakeup.passed] at hbefore
    omega
  · have hsound := sound_of_silent h hw hp (by simp [Phase.Listens, hu])
    have hkeeps : w₁.Keeps (w₁.leave t (some v)) (Wakeup.passed (some v)) := by
      cases v with
      | single => exact Sound.wakeOne hsound
      | kept | everyone => exact Sound.keeps hsound
    refine ⟨hkeeps.sound, hkeeps.queue.trans hw.queue, ?_, fun hparked => ?_⟩
    · exact fun t' ht' => hw.parked t' (hkeeps.parked t' ht')
    · have hpassed := hkeeps.load hparked
      omega

/-- A task that has been served leaves nothing. -/
theorem keeps_served {key : Option κ} (h : w.Sound) (hw : w.Without t w₁)
    (hp : w.phase? t = some (.served key)) : w.Keeps w₁ 0 where
  sound := sound_of_silent h hw hp (by simp [Phase.Listens, Phase.wakeup?])
  queue := hw.queue
  parked := hw.parked
  load _ := by
    have hbefore := load_remove h.ids_nodup hp
    have hafter := hw.load
    simp only [Phase.load] at hbefore
    omega

end Without

/-! ## Looking -/

variable [DecidableEq κ]

theorem look_of_take? {k : κ} {queue : WorkQueue κ} (htake : w.queue.take? = some (k, queue)) :
    w.look t u = Waiting.setPhase { w with queue } t (.leaving (some k) u) := by
  unfold look
  rw [htake]

/-- A task that finds a key takes it, and is up for one key less. -/
theorem Sound.look_key {k : κ} {queue : WorkQueue κ} (h : w.Sound)
    (hp : w.phase? t = some (.looking u)) (htake : w.queue.take? = some (k, queue)) :
    (w.look t u).Sound ∧ (w.look t u).queue = queue ∧ (w.look t u).load + 1 = w.load ∧
    ∀ t', (w.look t u).phase? t' = some .parked → w.phase? t' = some .parked := by
  have hsound : ({ w with queue } : Waiting κ ω).Sound :=
    ⟨h.ids_nodup, h.registered_nodup, h.listed, h.permit⟩
  have hp' : phase? { w with queue } t = some (.looking u) := hp
  rw [look_of_take? htake]
  refine ⟨hsound.setPhase hp' .rfl, rfl, ?_, (concerns_setPhase { w with queue } t _).parked ?_⟩
  · have hmoved := load_setPhase (x := { w with queue }) h.ids_nodup hp rfl (.leaving (some k) u)
    simp only [Phase.load] at hmoved
    omega
  · simp [phase?_setPhase_self hp']

/-- A task that finds no key goes to sleep only if the queue has not been shut down. -/
theorem Sound.look_none (h : w.Sound) (hp : w.phase? t = some (.looking u))
    (htake : w.queue.take? = none) :
    (w.look t u).Sound ∧ (w.look t u).queue = w.queue ∧ (w.queue.stopping = true →
      ∀ t', (w.look t u).phase? t' = some .parked → w.phase? t' = some .parked) := by
  by_cases hstopping : w.queue.stopping = true
  · have hleaves : w.look t u = w.setPhase t (.leaving none u) := by
      unfold look
      rw [htake]
      exact if_pos hstopping
    rw [hleaves]
    refine ⟨h.setPhase hp .rfl, rfl, fun _ => (concerns_setPhase w t _).parked ?_⟩
    simp [phase?_setPhase_self hp]
  · have hwaits : ∃ p : Phase κ, w.look t u = w.setPhase t p ∧ (p.Listens ↔ u = none) := by
      rcases u with _ | v
      · refine ⟨.parked, ?_, by simp [Phase.Listens, Phase.wakeup?]⟩
        rw [look, htake]
        exact if_neg hstopping
      · refine ⟨.arriving, ?_, by simp [Phase.Listens, Phase.wakeup?]⟩
        rw [look, htake]
        exact if_neg hstopping
    obtain ⟨p, hlook, hlistens⟩ := hwaits
    rw [hlook]
    refine ⟨h.setPhase hp (hlistens.trans ?_), rfl, fun h => absurd h hstopping⟩
    simp [Phase.Listens, Phase.wakeup?]

end Waiting

end WorkQueue

end Registrar
