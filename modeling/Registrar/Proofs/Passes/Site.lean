import Registrar.Proofs.Passes.Terms

/-!
# Many passes on one store

A site is a store on which passes run, each under an index, one call at a time and in any order. A
call may fail without effect, a pass may be left at any point, and clients make requests in
between. Under a regime each pass meets its terms from its start, what one may do the others count
on, and so do they count on the clients; then all of them meet their terms at every moment
(`Kept.run`).
-/

namespace Registrar

/-- What may happen next on a site. -/
inductive Move (ι : Type) where
  | begin (i : ι)
  /-- The next call of a pass is answered, or the clock is read to it. -/
  | perform (i : ι) (now : Time)
  | fail (i : ι) (e : StoreError)
  /-- A pass is abandoned, or cleared away when it has ended. -/
  | leave (i : ι)
  | client (r : Request) (now : Time)

structure Site (ι α : Type) : Type 1 where
  store : Store
  passes : ι → Option (Program α)

namespace Site

variable {ι α : Type}

/-- A store on which no pass runs. -/
def quiet (s : Store) : Site ι α :=
  ⟨s, fun _ => none⟩

variable [DecidableEq ι] (start : ι → Program α)

/-- The site with a pass at another point. -/
def setPass (s : Site ι α) (i : ι) (p : Option (Program α)) : Site ι α :=
  { s with passes := Function.update s.passes i p }

/-- The site after a move; a move that cannot be made changes nothing. -/
def step (s : Site ι α) : Move ι → Site ι α
  | .begin i =>
    match s.passes i with
    | none => s.setPass i (some (start i))
    | some _ => s
  | .perform i now =>
    match s.passes i with
    | some (.call c next) =>
      { s with store := (s.store.perform now c).2 }.setPass i
        (some (next (s.store.perform now c).1))
    | some (.clock next) => s.setPass i (some (next now))
    | some (.done _) | none => s
  | .fail i e =>
    match s.passes i with
    | some (.call _ next) => s.setPass i (some (next (.error e)))
    | some (.clock _) | some (.done _) | none => s
  | .leave i => s.setPass i none
  | .client r now => { s with store := r.serve now s.store }

/-- The site after a list of moves. -/
def run (s : Site ι α) : List (Move ι) → Site ι α
  | [] => s
  | move :: moves => (s.step start move).run moves

/-- Each move of a list may be made where it comes. -/
def Permits (may : Site ι α → Move ι → Prop) (s : Site ι α) : List (Move ι) → Prop
  | [] => True
  | move :: moves => may s move ∧ (s.step start move).Permits may moves

theorem run_append (s : Site ι α) : ∀ front back : List (Move ι),
    s.run start (front ++ back) = (s.run start front).run start back
  | [], _ => rfl
  | move :: front, back => run_append (s.step start move) front back

theorem permits_append {may : Site ι α → Move ι → Prop} :
    ∀ {s : Site ι α} {front back : List (Move ι)},
    s.Permits start may (front ++ back) ↔
      s.Permits start may front ∧ (s.run start front).Permits start may back
  | _, [], _ => by simp [Permits, run]
  | s, move :: front, back => by
    simp only [List.cons_append, Permits, run, permits_append, and_assoc]

@[simp] theorem store_setPass (s : Site ι α) (i : ι) (p : Option (Program α)) :
    (s.setPass i p).store = s.store :=
  rfl

/-- How passes and clients share a store. -/
structure Regime (terms : ι → Terms) (post : ι → α → Moment → Prop)
    (may : Site ι α → Move ι → Prop) (inv : Store → Prop) : Prop where
  inv_iff : ∀ i s, (terms i).inv s ↔ inv s
  starts : ∀ i m, inv m.store → (start i).Meets (terms i) (post i) m
  apart : ∀ i j m n, i ≠ j → (terms i).own m n → (terms j).others m n
  clients : ∀ s r now, may s (.client r now) → inv s.store →
    inv (r.serve now s.store) ∧
    ∀ i number, (terms i).others ⟨number, s.store⟩ ⟨number + 1, r.serve now s.store⟩
  failures : ∀ (s : Site ι α) i e {β : Type} (c : Call β) next, may s (.fail i e) →
    s.passes i = some (.call c next) → (terms i).mayFail c e s.store

/-- A pass runs under an index and has not ended. -/
def Runs (s : Site ι α) (i : ι) : Prop :=
  ∃ p, s.passes i = some p ∧ p.ended = false

/-- What holds at a moment: of the store, and of each pass that has not ended. -/
structure Kept (terms : ι → Terms) (post : ι → α → Moment → Prop) (inv : Store → Prop)
    (number : Nat) (s : Site ι α) : Prop where
  inv : inv s.store
  meets : ∀ i p, s.passes i = some p → p.ended = false →
    p.Meets (terms i) (post i) ⟨number, s.store⟩

/-- What holds after a move: of the store, and of each pass that had not ended before or has not
now. -/
structure Moved (terms : ι → Terms) (post : ι → α → Moment → Prop) (inv : Store → Prop)
    (number : Nat) (before s : Site ι α) : Prop where
  inv : inv s.store
  meets : ∀ i p, s.passes i = some p → p.ended = false ∨ before.Runs i →
    p.Meets (terms i) (post i) ⟨number, s.store⟩

variable {start} {terms : ι → Terms} {post : ι → α → Moment → Prop}
  {may : Site ι α → Move ι → Prop} {inv : Store → Prop} {number : Nat} {s : Site ι α}

omit [DecidableEq ι] in
theorem Moved.kept {before : Site ι α} (h : Moved terms post inv number before s) :
    Kept terms post inv number s :=
  ⟨h.inv, fun i p hp hended => h.meets i p hp (.inl hended)⟩

namespace Kept

omit [DecidableEq ι] in
theorem quiet {store : Store} (h : inv store) :
    Kept terms post inv 0 (Site.quiet store : Site ι α) :=
  ⟨h, fun _ _ hp => absurd hp (by simp [Site.quiet])⟩

omit [DecidableEq ι] in
theorem later {t : Store} (h : Kept terms post inv number s) {i : ι} {p : Program α}
    (hp : s.passes i = some p) (hended : p.ended = false ∨ s.Runs i)
    (hothers : (terms i).others ⟨number, s.store⟩ ⟨number + 1, t⟩) :
    p.Meets (terms i) (post i) ⟨number + 1, t⟩ := by
  have hended : p.ended = false := by
    rcases hended with hended | ⟨q, hq, hended⟩
    · exact hended
    · obtain rfl := Option.some.inj (hp.symm.trans hq)
      exact hended
  exact (h.meets i p hp hended).later hended hothers

theorem setPass {t : Store} {i : ι} {p : Option (Program α)} (h : Kept terms post inv number s)
    (hinv : inv t) (hothers : ∀ j, j ≠ i → (terms j).others ⟨number, s.store⟩ ⟨number + 1, t⟩)
    (hp : ∀ q, p = some q → q.Meets (terms i) (post i) ⟨number + 1, t⟩) :
    Moved terms post inv (number + 1) s ({ s with store := t }.setPass i p) where
  inv := hinv
  meets j q hq hended := by
    by_cases hj : j = i
    · subst hj
      exact hp q (by simpa [Site.setPass] using hq)
    · exact h.later (by simpa [Site.setPass, hj] using hq) hended (hothers j hj)

variable {β : Type} {i : ι} {c : Call β} {next : Except StoreError β → Program α}
  (hr : Regime start terms post may inv) (h : Kept terms post inv number s)
include hr h

omit [DecidableEq ι] in
theorem perform (hp : s.passes i = some (.call c next)) (hlimit : number < Moment.limit)
    (now : Time) :
    inv (s.store.perform now c).2 ∧
    (terms i).own ⟨number, s.store⟩ ⟨number + 1, (s.store.perform now c).2⟩ ∧
    (next (s.store.perform now c).1).Meets (terms i) (post i)
      ⟨number + 1, (s.store.perform now c).2⟩ := by
  have hmeets := h.meets i _ hp rfl ⟨number, s.store⟩ ((terms i).others_refl _)
    ((hr.inv_iff i _).2 h.inv) hlimit
  obtain ⟨hinv, hown, hnext⟩ := hmeets.1 now
  exact ⟨(hr.inv_iff i _).1 hinv, hown, hnext⟩

/-- Every move that may be made keeps what holds of the site. -/
theorem step {move : Move ι} (hmay : may s move) (hlimit : number < Moment.limit) :
    Moved terms post inv (number + 1) s (s.step start move) := by
  have hidle : ∀ j, (terms j).others ⟨number, s.store⟩ ⟨number + 1, s.store⟩ :=
    fun j => (terms j).others_idle ⟨number, s.store⟩
  have hstays : Moved terms post inv (number + 1) s s :=
    ⟨h.inv, fun j q hq hended => h.later hq hended (hidle j)⟩
  cases move with
  | begin i =>
    simp only [Site.step]
    split
    · refine h.setPass h.inv (fun j _ => hidle j) fun q hq => ?_
      obtain rfl := Option.some.inj hq
      exact hr.starts i ⟨number + 1, s.store⟩ h.inv
    · exact hstays
  | perform i now =>
    simp only [Site.step]
    split
    · rename_i hp
      obtain ⟨hinv, hown, hnext⟩ := h.perform hr hp hlimit now
      refine h.setPass hinv (fun j hj => hr.apart i j _ _ hj.symm hown) fun q hq => ?_
      obtain rfl := Option.some.inj hq
      exact hnext
    · rename_i next hp
      refine h.setPass h.inv (fun j _ => hidle j) fun q hq => ?_
      obtain rfl := Option.some.inj hq
      exact h.meets i _ hp rfl ⟨number + 1, s.store⟩ (hidle i) now
    · exact hstays
    · exact hstays
  | fail i e =>
    simp only [Site.step]
    split
    · rename_i c next hp
      refine h.setPass h.inv (fun j _ => hidle j) fun q hq => ?_
      obtain rfl := Option.some.inj hq
      exact (h.meets i _ hp rfl ⟨number, s.store⟩ ((terms i).others_refl _)
        ((hr.inv_iff i _).2 h.inv) hlimit).2 e (hr.failures s i e c next hmay hp)
    · exact hstays
    · exact hstays
    · exact hstays
  | leave i =>
    exact h.setPass h.inv (fun j _ => hidle j) (by simp)
  | client r now =>
    obtain ⟨hinv, hothers⟩ := hr.clients s r now hmay h.inv
    exact ⟨hinv, fun j q hq hended => h.later hq hended (hothers j number)⟩

omit h in
/-- All passes meet their terms at every moment of a run. -/
theorem run : ∀ {moves : List (Move ι)} {number : Nat} {s : Site ι α},
    Kept terms post inv number s → s.Permits start may moves →
    number + moves.length ≤ Moment.limit →
    Kept terms post inv (number + moves.length) (s.run start moves)
  | [], _, _, h, _, _ => h
  | move :: moves, number, s, h, hmay, hlimit => by
    rw [List.length_cons] at hlimit
    have hstep := (h.step hr hmay.1 (by omega)).kept
    have hrun := run hstep hmay.2 (by omega)
    rwa [List.length_cons, Nat.add_comm moves.length, ← Nat.add_assoc]

end Kept

end Site

end Registrar
