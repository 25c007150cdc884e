import Registrar.Controller.Runtime

/-!
# The moves of a controller

While a controller runs, watches add keys, delayed keys fall due and workers go on, in any order,
and others change the state. Whatever the tasks do in their turns consists of such moves
(`reaches_turn`, `reaches_expire`).
-/

namespace Registrar

namespace Controller

/-- What may happen while a controller runs. -/
inductive Move (σ : Type) where
  /-- A watch adds a key. -/
  | add (key : Key)
  /-- The wait for a key that was to be added later is over. -/
  | expire (i : Nat)
  /-- A worker goes on, at a time. -/
  | work (i now : Nat)
  /-- A watch ends, or is told to. -/
  | watches (registrations domains : Option Nat) (stopping : Bool)
  | shutdown
  /-- Others change the state. -/
  | world (s : σ)

variable {σ : Type} {b : Backend σ} {c : Controller} {s : σ} {w : Controller × σ}

def step (b : Backend σ) (w : Controller × σ) : Move σ → Controller × σ
  | .add key => (w.1.addAll [key], w.2)
  | .expire i =>
    match w.1.delayed[i]? with
    | some (_, key) => ({ w.1 with delayed := w.1.delayed.eraseIdx i }.addAll [key], w.2)
    | none => w
  | .work i now => (w.1.work? b now i w.2).getD w
  | .watches registrations domains stopping =>
    ({ w.1 with registrations, domains, stopping }, w.2)
  | .shutdown => (w.1.shutdown, w.2)
  | .world s => (w.1, s)

def run (b : Backend σ) (w : Controller × σ) (moves : List (Move σ)) : Controller × σ :=
  moves.foldl (step b) w

theorem run_cons (b : Backend σ) (w : Controller × σ) (move : Move σ) (moves : List (Move σ)) :
    run b w (move :: moves) = run b (step b w move) moves :=
  rfl

theorem run_append (b : Backend σ) (w : Controller × σ) (front back : List (Move σ)) :
    run b w (front ++ back) = run b (run b w front) back :=
  List.foldl_append

/-- Some moves lead from a state to another one. -/
def Reaches (b : Backend σ) (w w' : Controller × σ) : Prop :=
  ∃ moves : List (Move σ), w' = run b w moves

namespace Reaches

variable {w₁ w₂ w₃ : Controller × σ}

theorem refl (w : Controller × σ) : Reaches b w w :=
  ⟨[], rfl⟩

theorem of_step (move : Move σ) : Reaches b w (step b w move) :=
  ⟨[move], rfl⟩

theorem trans (h₁ : Reaches b w₁ w₂) (h₂ : Reaches b w₂ w₃) : Reaches b w₁ w₃ := by
  obtain ⟨front, rfl⟩ := h₁
  obtain ⟨back, rfl⟩ := h₂
  exact ⟨front ++ back, (run_append b w₁ front back).symm⟩

end Reaches

theorem reaches_addAll (s : σ) : ∀ (keys : List Key) (c : Controller),
    Reaches b (c, s) (c.addAll keys, s)
  | [], _ => .refl _
  | key :: keys, c => .trans (.of_step (.add key)) (reaches_addAll s keys (c.addAll [key]))

/-- All that a watch does to a controller is that it adds keys. -/
theorem reaches_watch {R : Type} [Resource R] {keys : R → List Key} {receiver : Nat}
    {c' : Controller} {s' : σ} {ended : Bool}
    (h : watch b keys receiver c s = some (c', s', ended)) : Reaches b (c, s) (c', s') := by
  suffices hadded : ∃ added, c' = c.addAll added by
    obtain ⟨added, rfl⟩ := hadded
    exact .trans (.of_step (.world s')) (reaches_addAll s' added c)
  rw [watch] at h
  split at h
  · cases h
    exact ⟨[], rfl⟩
  · dsimp only at h
    split at h
    · cases h
      exact ⟨_, rfl⟩
    · split at h <;> cases h
      · exact ⟨_, rfl⟩
      · exact ⟨[], rfl⟩
    · cases h
      exact ⟨[], rfl⟩
    · cases h

theorem reaches_watchRegistrations (h : c.watchRegistrations? b s = some w) :
    Reaches b (c, s) w := by
  rw [watchRegistrations?] at h
  split at h
  · cases h
  · split at h
    · cases h
    · rename_i hwatch
      cases h
      exact reaches_watch hwatch
    · rename_i c' s' hwatch
      cases h
      exact ((reaches_watch hwatch).trans (.of_step (.watches none c'.domains c'.stopping))).trans
        (.of_step (.world _))

theorem reaches_watchDomains (h : c.watchDomains? b s = some w) : Reaches b (c, s) w := by
  rw [watchDomains?] at h
  split at h
  · cases h
  · split at h
    · cases h
    · rename_i hwatch
      cases h
      exact reaches_watch hwatch
    · rename_i c' s' hwatch
      cases h
      exact ((reaches_watch hwatch).trans
        (.of_step (.watches c'.registrations none c'.stopping))).trans (.of_step (.world _))

theorem reaches_workAny {now : Nat} (h : c.workAny? b now s = some w) : Reaches b (c, s) w := by
  obtain ⟨i, -, hwork⟩ := List.exists_of_findSome?_eq_some h
  exact ⟨[.work i now], by rw [run_cons, step, hwork]; rfl⟩

theorem reaches_repeated {step? : Controller → σ → Option (Controller × σ)}
    (hstep : ∀ {c s w}, step? c s = some w → Reaches b (c, s) w) :
    ∀ (fuel : Nat) (c : Controller) (s : σ), Reaches b (c, s) (repeated step? fuel c s)
  | 0, _, _ => .refl _
  | fuel + 1, c, s => by
    rw [repeated]
    split
    · rename_i hnext
      exact (hstep hnext).trans (reaches_repeated hstep fuel _ _)
    · exact .refl _

/-- A turn of the tasks consists of moves. -/
theorem reaches_turn {fuel now : Nat} (h : c.turn? b fuel now s = some w) :
    Reaches b (c, s) w := by
  rw [turn?] at h
  split at h
  · cases h
  · cases h
    exact ((reaches_repeated reaches_watchRegistrations fuel c s).trans
      (reaches_repeated reaches_watchDomains fuel _ _)).trans
      (reaches_repeated reaches_workAny fuel _ _)

/-- Delayed keys that fall due at the same time are added one after the other. -/
theorem reaches_fallingDue (s : σ) (now : Nat) : ∀ (waiting front : List (Nat × Key))
    {c : Controller}, c.delayed = front ++ waiting → Reaches b (c, s)
      ({ c with delayed := front ++ waiting.filter fun d : Nat × Key => !decide (d.1 ≤ now) }.addAll
        ((waiting.filter fun d : Nat × Key => decide (d.1 ≤ now)).map Prod.snd), s)
  | [], front, c, h => by
    rw [List.filter_nil, ← h]
    exact .refl _
  | (due, key) :: waiting, front, c, h => by
    by_cases hdue : due ≤ now
    · have hexpire : step b (c, s) (.expire front.length)
          = ({ c with delayed := front ++ waiting }.addAll [key], s) := by
        simp [step, h, List.eraseIdx_append_of_length_le]
      have hrest := reaches_fallingDue s now waiting front
        (c := { c with delayed := front ++ waiting }.addAll [key]) rfl
      rw [← hexpire] at hrest
      refine .trans (.of_step (.expire front.length)) ?_
      simpa [hdue, addAll] using hrest
    · have hrest := reaches_fallingDue s now waiting (front ++ [(due, key)])
        (c := c) (by rw [h, List.append_assoc]; rfl)
      simpa [hdue] using hrest

theorem reaches_expire (c : Controller) (s : σ) (now : Nat) :
    Reaches b (c, s) (c.expire now, s) := by
  rw [expire, List.partition_eq_filter_filter]
  exact reaches_fallingDue s now c.delayed [] rfl

end Controller

end Registrar
