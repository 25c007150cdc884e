import Registrar.Proofs.Passes.Binder
import Registrar.Proofs.Passes.Site

/-!
# Concurrent bindings

Any number of registrations are bound and released at the same time on one store, while clients
leave the lists of the domains alone. Every write of a list is an edit of what was listed right
before it (`Task.Commits`), so the lists are those that the edits make one after the other in the
order of the writes, and no reference is listed twice that was not (`bindings_in_order`).
-/

namespace Registrar

open Resource Store

/-- A registration to be bound or to be released, and how often a write is tried. -/
inductive Task where
  | register (registration : Registration) (attempts : Nat)
  | unregister (registration : Registration) (attempts : Nat)

/-- No object is listed twice. -/
def References.Distinct (list : List Reference) : Prop :=
  list.Pairwise fun r s => r.sameObject s = false

namespace Task

def registration : Task → Registration
  | register r _ | unregister r _ => r

/-- The key of the domain whose list a task edits. -/
def key (task : Task) : Key :=
  Binding.domainKey task.registration

def reference (task : Task) : Reference :=
  Resource.reference task.registration

/-- Whether the reference is listed when the task is done. -/
def binds : Task → Bool
  | register .. => true
  | unregister .. => false

/-- What a task makes of a list. -/
def edit : Task → List Reference → List Reference
  | register r _, list => References.append list (Resource.reference r)
  | unregister r _, list => References.remove list (Resource.reference r)

/-- A task as a program that tells whether the reference is listed. -/
def program : Task → Program (Except PassError Bool)
  | register r attempts => (do
      Binding.register r attempts
      return true : Pass Bool).run
  | unregister r attempts => (Binding.unregister r attempts).run

/-- A write of a task puts its own reference, so far absent, behind the others, or takes out exactly
the references to its own object, of which there were some. -/
def Commits : Task → Store → Store → Prop
  | register r _, s, t =>
    References.contains (s.listed (Binding.domainKey r)) (Resource.reference r) = false ∧
    s.Relisted (Binding.domainKey r)
      (s.listed (Binding.domainKey r) ++ [Resource.reference r]) t
  | unregister r _, s, t =>
    References.contains (s.listed (Binding.domainKey r)) (Resource.reference r) = true ∧
    s.Relisted (Binding.domainKey r)
      (References.remove (s.listed (Binding.domainKey r)) (Resource.reference r)) t

variable {task : Task} {s t : Store}

theorem commits_of_relisted (h : s.Relisted task.key (task.edit (s.listed task.key)) t)
    (hne : task.edit (s.listed task.key) ≠ s.listed task.key) : task.Commits s t := by
  cases task with
  | register r attempts =>
    have habsent := References.append_ne_iff.1 hne
    rw [edit, References.append_of_not_contains habsent] at h
    exact ⟨habsent, h⟩
  | unregister r attempts => exact ⟨References.remove_ne_iff.1 hne, h⟩

theorem Commits.relisted (h : task.Commits s t) :
    s.Relisted task.key (task.edit (s.listed task.key)) t := by
  cases task with
  | register r attempts =>
    obtain ⟨habsent, h⟩ := h
    rw [edit, key, registration, References.append_of_not_contains habsent]
    exact h
  | unregister r attempts => exact h.2

theorem Commits.edit_ne (h : task.Commits s t) :
    task.edit (s.listed task.key) ≠ s.listed task.key := by
  cases task with
  | register r attempts => exact References.append_ne_iff.2 h.1
  | unregister r attempts => exact References.remove_ne_iff.2 h.1

/-- A task counts on the domains to stay, and does nothing but write its edit. No call fails. -/
def terms (task : Task) : Terms where
  inv := Sound
  others := Moment.Follows
  own m n := m.Follows n ∧ (n.store = m.store ∨ task.Commits m.store n.store)
  mayFail _ _ _ := False
  sound _ h := h
  follows _ _ h := h
  others_refl := Moment.Follows.refl
  others_trans := Moment.Follows.trans
  others_idle := Moment.Follows.idle
  own_idle m := ⟨Moment.Follows.idle m, .inl rfl⟩

/-- What is asked of the result of a task, at the moment after its last call. -/
def Done (task : Task) (result : Except PassError Bool) (m : Moment) : Prop :=
  ∀ listed, result = .ok listed → listed = task.binds ∧
    References.contains (m.store.listed task.key) task.reference = task.binds

theorem allows (task : Task) : task.terms.Allows task.key task.edit fun _ => True where
  stable _ _ _ _ := trivial
  write _ _ _ hinv h hne :=
    ⟨Sound.wrote (k := .domain) hinv h.wrote,
      ⟨h.follows, .inr (commits_of_relisted h hne)⟩, trivial⟩
  missing _ _ h := h.elim

theorem meets_program (task : Task) (m : Moment) : task.program.Meets task.terms task.Done m := by
  cases task with
  | register r attempts =>
    refine Pass.meets_bind (Program.Meets.mono ?_
      (Binding.meets_register (allows (.register r attempts)) trivial))
    rintro (e | ⟨⟩) n ⟨-, hlisted⟩
    · exact fun _ h => absurd h (by simp)
    · exact fun listed h => ⟨by simpa [binds] using h.symm, hlisted rfl⟩
  | unregister r attempts =>
    refine Program.Meets.mono ?_
      (Binding.meets_unregister (allows (.unregister r attempts)) trivial)
    rintro result n ⟨-, hlisted⟩ listed h
    exact hlisted listed h

theorem distinct_edit (task : Task) {list : List Reference} (h : References.Distinct list) :
    References.Distinct (task.edit list) := by
  cases task with
  | register r attempts =>
    rw [edit, References.append]
    split
    · exact h
    · rename_i habsent
      refine List.pairwise_append.2 ⟨h, List.pairwise_singleton _ _, fun a ha b hb => ?_⟩
      rw [List.mem_singleton.1 hb]
      simpa using fun hsame => habsent (List.any_eq_true.2 ⟨a, ha, hsame⟩)
  | unregister r attempts => exact h.filter _

section Sites

variable {ι : Type} (task : ι → Task)

/-- What tasks make of the list of a domain, one after the other. -/
def edited (key : Key) (list : List Reference) (tasks : List ι) : List Reference :=
  tasks.foldl (fun list i => if (task i).key = key then (task i).edit list else list) list

variable {task} in
theorem edited_append (key : Key) (list : List Reference) (front back : List ι) :
    edited task key list (front ++ back) = edited task key (edited task key list front) back :=
  List.foldl_append

variable {task} in
theorem distinct_edited {key : Key} : ∀ (tasks : List ι) {list : List Reference},
    References.Distinct list → References.Distinct (edited task key list tasks)
  | [], _, h => h
  | i :: tasks, list, h => by
    rw [edited, List.foldl_cons]
    refine distinct_edited tasks ?_
    split
    · exact (task i).distinct_edit h
    · exact h

/-- Tasks go on step by step, and clients leave the lists alone. -/
def May (s : Site ι (Except PassError Bool)) : Move ι → Prop
  | .begin _ | .perform .. => True
  | .fail .. | .leave _ => False
  | .client r now => s.store.KeepsLists (r.serve now s.store)

theorem regime : Site.Regime (fun i => (task i).program) (fun i => (task i).terms)
    (fun i => (task i).Done) May Sound where
  inv_iff _ _ := Iff.rfl
  starts i m _ := (task i).meets_program m
  apart _ _ _ _ _ h := h.1
  clients _ r now h hs := ⟨r.sound_serve hs now, fun _ _ =>
    .of_fate (fun key => ⟨_, _, r.fate_serve hs now .domain key⟩) fun key => (h key).2⟩
  failures _ _ _ _ _ _ h _ := h.elim

variable [DecidableEq ι]

/-- The task that writes a list by a move, if there is one. -/
def committed (s : Site ι (Except PassError Bool)) : Move ι → List ι
  | .perform i now =>
    if (s.step (fun i => (task i).program) (.perform i now)).store.listed (task i).key
      = s.store.listed (task i).key then [] else [i]
  | _ => []

/-- The tasks that write a list, in the order of their writes. -/
def commits (s : Site ι (Except PassError Bool)) : List (Move ι) → List ι
  | [] => []
  | move :: moves =>
    committed task s move ++ commits (s.step (fun i => (task i).program) move) moves

variable {task} {s : Site ι (Except PassError Bool)} {number : Nat} {key : Key}

theorem step_perform
    (h : Site.Kept (fun i => (task i).terms) (fun i => (task i).Done) Sound number s)
    (hlimit : number < Moment.limit) (i : ι) (now : Time) :
    (s.step (fun i => (task i).program) (.perform i now)).store = s.store ∨
    (task i).Commits s.store (s.step (fun i => (task i).program) (.perform i now)).store := by
  simp only [Site.step]
  split
  · rename_i hp
    exact (h.perform (regime task) hp hlimit now).2.1.2
  · exact .inl rfl
  · exact .inl rfl
  · exact .inl rfl

theorem listed_step
    (h : Site.Kept (fun i => (task i).terms) (fun i => (task i).Done) Sound number s)
    (hlimit : number < Moment.limit) {move : Move ι} (hmay : May s move) (key : Key) :
    (s.step (fun i => (task i).program) move).store.listed key
      = edited task key (s.store.listed key) (committed task s move) := by
  cases move with
  | begin i =>
    simp only [Site.step]
    split <;> rfl
  | perform i now =>
    rw [committed]
    rcases step_perform h hlimit i now with hsame | hcommits
    · rw [hsame, if_pos rfl]
      rfl
    · have hrelisted := hcommits.relisted
      rw [if_neg (by rw [hrelisted.listed_eq]; exact hcommits.edit_ne), edited, List.foldl_cons,
        List.foldl_nil]
      split
      · rename_i hkey
        rw [← hkey, hrelisted.listed_eq]
      · rename_i hkey
        exact hrelisted.listed_other (Ne.symm hkey)
  | fail i e => exact hmay.elim
  | leave i => exact hmay.elim
  | client r now => exact (hmay key).1

theorem listed_run (key : Key) :
    ∀ {moves : List (Move ι)} {number : Nat} {s : Site ι (Except PassError Bool)},
    Site.Kept (fun i => (task i).terms) (fun i => (task i).Done) Sound number s →
    s.Permits (fun i => (task i).program) May moves → number + moves.length ≤ Moment.limit →
    (s.run (fun i => (task i).program) moves).store.listed key
      = edited task key (s.store.listed key) (commits task s moves)
  | [], _, _, _, _, _ => rfl
  | move :: moves, number, s, h, hmay, hlimit => by
    rw [List.length_cons] at hlimit
    have hstep := (h.step (regime task) hmay.1 (by omega)).kept
    rw [Site.run, listed_run key hstep hmay.2 (by omega), listed_step h (by omega) hmay.1, commits,
      edited_append]

/-- Bindings at the same time are made one after the other: each write of a task is its edit of what
is listed right before it; a task that returns without an error tells and leaves what it was to do;
no object gets listed twice; and the lists are what the edits make in the order of the writes. -/
theorem bindings_in_order {store : Store} (hstore : store.Reachable) {moves : List (Move ι)}
    {move : Move ι}
    (hmay : (Site.quiet store).Permits (fun i => (task i).program) May (moves ++ [move]))
    (short : moves.length < 2 ^ 64) :
    let before := (Site.quiet store).run (fun i => (task i).program) moves
    let after := before.step (fun i => (task i).program) move
    (∀ i now, move = .perform i now →
      after.store = before.store ∨ (task i).Commits before.store after.store) ∧
    (∀ i listed, before.Runs i → after.passes i = some (.done (.ok listed)) →
      listed = (task i).binds ∧
      References.contains (after.store.listed (task i).key) (task i).reference = (task i).binds) ∧
    (∀ key, References.Distinct (store.listed key) →
      References.Distinct (after.store.listed key)) ∧
    ∀ key, after.store.listed key = edited task key (store.listed key)
      (commits task (Site.quiet store) (moves ++ [move])) := by
  intro before after
  have hsound := sound_of_reachable hstore
  obtain ⟨hmoves, hmove, -⟩ := (Site.permits_append (fun i => (task i).program)).1 hmay
  have hkept := Site.Kept.run (regime task) (Site.Kept.quiet hsound) hmoves
    (by rw [Nat.zero_add]; exact Nat.le_of_lt short)
  rw [Nat.zero_add] at hkept
  have hlisted : ∀ key, after.store.listed key = edited task key (store.listed key)
      (commits task (Site.quiet store) (moves ++ [move])) := by
    intro key
    have h := listed_run key (Site.Kept.quiet hsound) hmay (by
      rw [Nat.zero_add, List.length_append]
      exact short)
    rwa [Site.run_append] at h
  refine ⟨?_, fun i listed hruns hdone => ?_, fun key hdistinct => ?_, hlisted⟩
  · rintro i now rfl
    exact step_perform hkept short i now
  · exact (hkept.step (regime task) hmove short).meets i _ hdone (.inr hruns) listed rfl
  · rw [hlisted key]
    exact distinct_edited _ hdistinct

end Sites

/-- Two registrations that ask for the same hostname. -/
def rival (first : Bool) : Task :=
  .register
    ((Registration.named "team" (if first then "first" else "second")).withHostname "shared") 3

/-- Both are begun before the first one creates the domain, which the second one then reads. -/
def race : List (Move Bool) :=
  [.begin true, .begin false, .perform true .epoch, .perform true .epoch, .perform false .epoch]

/-- The one that creates the domain is listed before the one that patches it. -/
theorem rivals_in_order :
    empty.Reachable ∧
    (Site.quiet empty).Permits (fun first => (rival first).program) May
      (race ++ [.perform false .epoch]) ∧
    race.length < 2 ^ 64 ∧
    (((Site.quiet empty).run (fun first => (rival first).program) race).step
      (fun first => (rival first).program)
      (.perform false .epoch)).store.listed { name := "shared" }
        = edited rival { name := "shared" } [] [true, false] := by
  have hreach : empty.Reachable := ⟨[], rfl⟩
  have hmay : (Site.quiet empty).Permits (fun first => (rival first).program) May
      (race ++ [.perform false .epoch]) :=
    ⟨trivial, trivial, trivial, trivial, trivial, trivial, trivial⟩
  have hcommits : commits rival (Site.quiet empty) (race ++ [.perform false .epoch])
      = [true, false] := by
    decide +kernel
  have hnothing : empty.listed { name := "shared" } = [] := by
    decide +kernel
  have hlisted := (bindings_in_order hreach hmay (by decide)).2.2.2 { name := "shared" }
  rw [hcommits, hnothing] at hlisted
  exact ⟨hreach, hmay, by decide, hlisted⟩

end Task

end Registrar
