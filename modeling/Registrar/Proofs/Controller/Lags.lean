import Registrar.Proofs.Controller.Watches
import Registrar.Store.Faults

/-!
# Watches that lag

A watch that is told that it lost events lists the registrations and adds them all. The store may
fail to answer; then nothing is added, the loss is not told again, and whoever is only heard of in
what was lost is missed (`lag_forgotten`). So after a lag a registration is added just when the
listing is answered or something else leads a watch to its key (`lag_heeded_iff`). Nothing else is
missed: what lies ahead of a watch stays until it is added, unless another listing fails
(`due_run`).
-/

namespace Registrar

open Resource

variable {σ : Type}

/-- A listing of a port that is answered names every stored registration. Listing takes nothing from
the receivers of the bus, and the bus leaves the registrations. -/
structure Backend.Lists (b : Backend σ) (stored : σ → Key → Prop) : Prop where
  bus_setBus : ∀ bus s, b.bus (b.setBus bus s) = bus
  stored_setBus : ∀ bus s key, stored s key → stored (b.setBus bus s) key
  grows_list : ∀ s id, Bus.Grows id (b.bus s) (b.bus (b.perform (.list Registration) s).2)
  answers : ∀ s regs, (b.perform (.list Registration) s).1 = .ok regs →
    ∀ key, stored s key → ∃ reg ∈ regs, Resource.key reg = key

inductive Watch where
  | registrations
  | domains

namespace Watch

/-- The receiver of a watch that has not ended. -/
def receiver? (c : Controller) : Watch → Option Nat
  | .registrations => c.registrations
  | .domains => c.domains

/-- The keys that an event calls for on a watch. -/
def called : Watch → WatchEvent Json → List Key
  | .registrations => Controller.eventKeys fun r : Registration => [Resource.key r]
  | .domains => Controller.eventKeys Domain.registrationKeys

def go? (b : Backend σ) (c : Controller) (s : σ) : Watch → Option (Controller × σ)
  | .registrations => c.watchRegistrations? b s
  | .domains => c.watchDomains? b s

end Watch

namespace Watches

/-- What may happen while two watches go on. -/
inductive Move (σ : Type) : Type 1 where
  | watch (v : Watch)
  /-- Others change the controller and the state. -/
  | others (c : Controller) (s : σ)

variable (b : Backend σ)

def step (w : Controller × σ) : Move σ → Controller × σ
  | .watch v => (v.go? b w.1 w.2).getD w
  | .others c s => (c, s)

def run (w : Controller × σ) (moves : List (Move σ)) : Controller × σ :=
  moves.foldl (step b) w

/-- The listing that a watch makes when its receiver has been told of a loss. -/
def listing (id : Nat) (s : σ) : Except StoreError (List Key) × σ :=
  Controller.listKeys.run b.toAccess (b.setBus ((b.bus s).receive id).2 s)

/-- The keys that a watch adds for what its receiver has to read. -/
def heard (called : WatchEvent Json → List Key) (id : Nat) (s : σ) : List Key :=
  match ((b.bus s).receive id).1 with
  | .event e => called e
  | .lagged _ => (listing b id s).1.toOption.getD []
  | .empty | .closed => []

/-- The keys that a move adds. -/
def added (w : Controller × σ) : Move σ → List Key
  | .watch v =>
    if w.1.stopping then [] else (v.receiver? w.1).elim [] fun id => heard b v.called id w.2
  | .others .. => []

/-- A watch that is not to end is told that it lost events. -/
def Lags (w : Controller × σ) (v : Watch) : Prop :=
  w.1.stopping = false ∧
    ∃ id n, v.receiver? w.1 = some id ∧ ((b.bus w.2).receive id).1 = .lagged n

/-- A watch would have its listing answered. -/
def Answered (w : Controller × σ) (v : Watch) : Prop :=
  ∃ id keys, v.receiver? w.1 = some id ∧ (listing b id w.2).1 = .ok keys

/-- A watch is told that it lost events and has no answer to its listing. -/
def Fails (w : Controller × σ) : Move σ → Prop
  | .watch v => Lags b w v ∧ ¬Answered b w v
  | .others .. => False

/-- One of the watches has still to read what calls for a key, or to be told that it lost events. -/
def Due (w : Controller × σ) (key : Key) : Prop :=
  ∃ (v : Watch) (id : Nat), v.receiver? w.1 = some id ∧
    (b.bus w.2).Pending id fun e => key ∈ v.called e

/-- Neither watch has ended. -/
def Present (c : Controller) : Prop :=
  ∀ v : Watch, v.receiver? c ≠ none

/-- The watches have different receivers. -/
def Apart (c : Controller) : Prop :=
  ∀ (v v' : Watch) (id : Nat), v.receiver? c = some id → v'.receiver? c = some id → v = v'

/-- No watch has anything to read or a loss to be told of. -/
def Idle (w : Controller × σ) : Prop :=
  ∀ (v : Watch) (id : Nat), v.receiver? w.1 = some id →
    ((b.bus w.2).receive id).1 = .empty ∨ ((b.bus w.2).receive id).1 = .closed

/-- Others leave the watches their receivers and what these have to read. -/
def May (w : Controller × σ) : Move σ → Prop
  | .watch _ => True
  | .others c s => ∀ v : Watch, v.receiver? c = v.receiver? w.1 ∧
      ∀ id, v.receiver? w.1 = some id → Bus.Grows id (b.bus w.2) (b.bus s)

def Permits (w : Controller × σ) : List (Move σ) → Prop
  | [] => True
  | move :: moves => May b w move ∧ Permits (step b w move) moves

variable {b} {stored : σ → Key → Prop} {w : Controller × σ} {move : Move σ} {v : Watch} {id : Nat}
  {key : Key} {c : Controller} {s : σ}

/-- How a watch goes on: it waits, it ends, or it adds the keys that it hears of. -/
inductive Watched (b : Backend σ) (called : WatchEvent Json → List Key) (id : Nat) (c : Controller)
    (s : σ) : Option (Controller × σ × Bool) → Prop
  | waits (silent : heard b called id s = []) : Watched b called id c s none
  | ends {s' : σ} (silent : c.stopping = false → heard b called id s = []) :
      Watched b called id c s (some (c, s', true))
  | goes {s' : σ} (lasting : c.stopping = false)
      (grows : ∀ id', Bus.Grows id' ((b.bus s).receive id).2 (b.bus s')) :
      Watched b called id c s (some (c.addAll (heard b called id s), s', false))

theorem watched_watch (hb : b.Lists stored) {R : Type} [Resource R] (keys : R → List Key) (id : Nat)
    (c : Controller) (s : σ) : Watched b (Controller.eventKeys keys) id c s
      (Controller.watch b keys id c s) := by
  rw [Controller.watch]
  split
  · rename_i hstopping
    exact .ends fun h => by simp [hstopping] at h
  · rename_i hlasting
    have hlasting : c.stopping = false := by simpa using hlasting
    have hgoes : ∀ {s'} keys', heard b (Controller.eventKeys keys) id s = keys' →
        (∀ id', Bus.Grows id' ((b.bus s).receive id).2 (b.bus s')) →
        Watched b (Controller.eventKeys keys) id c s (some (c.addAll keys', s', false)) := by
      rintro s' keys' rfl hgrows
      exact .goes hlasting hgrows
    have htaken : ∀ id', Bus.Grows id' ((b.bus s).receive id).2
        (b.bus (b.setBus ((b.bus s).receive id).2 s)) := fun id' => by
      rw [hb.bus_setBus]
      exact .refl id' _
    have hlisted : ∀ id', Bus.Grows id' ((b.bus s).receive id).2 (b.bus (listing b id s).2) :=
      fun id' => (htaken id').trans (hb.grows_list _ id')
    rw [listing] at hlisted
    rcases hread : (b.bus s).receive id with ⟨received, bus⟩
    rw [hread] at hgoes htaken hlisted
    have hsilent : received = .empty ∨ received = .closed →
        heard b (Controller.eventKeys keys) id s = [] := by
      rintro (rfl | rfl) <;> simp only [heard, hread]
    rcases received with e | n | _ | _
    · exact hgoes _ (by simp only [heard, hread]) htaken
    · have hheard : heard b (Controller.eventKeys keys) id s
          = (Controller.listKeys.run b.toAccess (b.setBus bus s)).1.toOption.getD [] := by
        simp only [heard, listing, hread]
      dsimp only at hlisted ⊢
      rcases hlist : Controller.listKeys.run b.toAccess (b.setBus bus s) with ⟨_ | listed, s'⟩
      all_goals rw [hlist] at hlisted hheard
      · exact hgoes [] hheard hlisted
      · exact hgoes listed hheard hlisted
    · exact .waits (hsilent (.inl rfl))
    · exact .ends fun _ => hsilent (.inr rfl)

/-- What a watch with a receiver leaves: it waits, it ends, or it adds what it hears of. -/
inductive Moved (b : Backend σ) (v : Watch) (id : Nat) (c : Controller) (s : σ) :
    Controller × σ → Prop
  | waits (silent : heard b v.called id s = []) : Moved b v id c s (c, s)
  | ends {c' : Controller} {s' : σ} (silent : c.stopping = false → heard b v.called id s = [])
      (gone : v.receiver? c' = none) (kept : ∀ v' ≠ v, v'.receiver? c' = v'.receiver? c) :
      Moved b v id c s (c', s')
  | goes {s' : σ} (lasting : c.stopping = false)
      (grows : ∀ id', Bus.Grows id' ((b.bus s).receive id).2 (b.bus s')) :
      Moved b v id c s (c.addAll (heard b v.called id s), s')

theorem moved_step (hb : b.Lists stored) (h : v.receiver? c = some id) :
    Moved b v id c s (step b (c, s) (.watch v)) := by
  cases v with
  | registrations =>
    have hregs : c.registrations = some id := h
    have hwatched := watched_watch hb (fun r : Registration => [Resource.key r]) id c s
    simp only [step, Watch.go?, Controller.watchRegistrations?, hregs]
    generalize Controller.watch b (fun r : Registration => [Resource.key r]) id c s = result
      at hwatched ⊢
    cases hwatched with
    | waits silent => exact .waits silent
    | ends silent => exact .ends silent rfl fun v' hne => by cases v' <;> trivial
    | goes lasting grows => exact .goes lasting grows
  | domains =>
    have hdoms : c.domains = some id := h
    have hwatched := watched_watch hb Domain.registrationKeys id c s
    simp only [step, Watch.go?, Controller.watchDomains?, hdoms]
    generalize Controller.watch b Domain.registrationKeys id c s = result at hwatched ⊢
    cases hwatched with
    | waits silent => exact .waits silent
    | ends silent => exact .ends silent rfl fun v' hne => by cases v' <;> trivial
    | goes lasting grows => exact .goes lasting grows

theorem step_of_ended (h : v.receiver? w.1 = none) : step b w (.watch v) = w := by
  cases v with
  | registrations =>
    have hregs : w.1.registrations = none := h
    simp only [step, Watch.go?, Controller.watchRegistrations?, hregs, Option.getD_none]
  | domains =>
    have hdoms : w.1.domains = none := h
    simp only [step, Watch.go?, Controller.watchDomains?, hdoms, Option.getD_none]

theorem added_eq (h : v.receiver? w.1 = some id) :
    added b w (.watch v) = if w.1.stopping then [] else heard b v.called id w.2 := by
  rw [added, h, Option.elim_some]

/-- A listing that is answered names every stored registration. -/
theorem mem_listing {keys : List Key} (hb : b.Lists stored) (h : (listing b id s).1 = .ok keys)
    (hstored : stored s key) : key ∈ keys := by
  have hanswer : (listing b id s).1 = (b.perform (.list Registration)
      (b.setBus ((b.bus s).receive id).2 s)).1.map (·.map Resource.key) := rfl
  rw [hanswer] at h
  rcases hlist : (b.perform (.list Registration) (b.setBus ((b.bus s).receive id).2 s)).1
    with e | regs <;> rw [hlist] at h <;> cases h
  exact List.mem_map.2 (hb.answers _ regs hlist key (hb.stored_setBus _ s key hstored))

/-- A watch that lags and has an answer adds every stored registration. -/
theorem mem_added_of_answered (hb : b.Lists stored) (hlags : Lags b w v)
    (hanswered : Answered b w v) (hstored : stored w.2 key) : key ∈ added b w (.watch v) := by
  obtain ⟨hlasting, id, n, hid, hread⟩ := hlags
  obtain ⟨id', keys, hid', hlisting⟩ := hanswered
  obtain rfl := Option.some.inj (hid'.symm.trans hid)
  rw [added_eq hid, hlasting, if_neg (by simp), heard, hread]
  dsimp only
  rw [hlisting]
  exact mem_listing hb hlisting hstored

theorem added_of_fails (h : Fails b w move) : added b w move = [] := by
  cases move with
  | others => exact h.elim
  | watch v =>
    obtain ⟨⟨hlasting, id, n, hid, hread⟩, hanswered⟩ := h
    rw [added_eq hid, hlasting, if_neg (by simp), heard, hread]
    dsimp only
    rcases hlisting : (listing b id w.2).1 with e | keys
    · rfl
    · exact absurd ⟨id, keys, hid, hlisting⟩ hanswered

/-- What is added is queued, unless the queue has been shut down. -/
theorem mem_dirty_step (hb : b.Lists stored) (hopen : w.1.queue.stopping = false)
    (h : key ∈ added b w move) : key ∈ (step b w move).1.queue.dirty := by
  cases move with
  | others => cases h
  | watch v =>
    rcases hid : v.receiver? w.1 with _ | id
    · simp [added, hid] at h
    · have hmoved : Moved b v id w.1 w.2 (step b w (.watch v)) := moved_step hb hid
      rw [added_eq hid] at h
      generalize step b w (.watch v) = w' at hmoved ⊢
      cases hmoved with
      | waits silent => simp [silent] at h
      | ends silent =>
        split at h
        · cases h
        · rename_i hlasting
          rw [silent (by simpa using hlasting)] at h
          cases h
      | goes lasting =>
        rw [lasting, if_neg (by simp)] at h
        exact Launch.dirty_foldl_add hopen (.inl h)

theorem receiver?_addAll (keys : List Key) : v.receiver? (c.addAll keys) = v.receiver? c := by
  cases v <;> rfl

/-- No move gives a watch a receiver. -/
theorem receiver?_of_step (hb : b.Lists stored) (hmay : May b w move)
    (h : v.receiver? (step b w move).1 = some id) : v.receiver? w.1 = some id := by
  cases move with
  | others c s => rwa [← (hmay v).1]
  | watch v' =>
    rcases hid : v'.receiver? w.1 with _ | id'
    · rwa [step_of_ended hid] at h
    · have hmoved : Moved b v' id' w.1 w.2 (step b w (.watch v')) := moved_step hb hid
      generalize step b w (.watch v') = w' at hmoved h
      cases hmoved with
      | waits => exact h
      | ends _ gone kept =>
        rcases eq_or_ne v v' with rfl | hne
        · rw [gone] at h
          cases h
        · rwa [← kept v hne]
      | goes => rwa [receiver?_addAll] at h

theorem Present.of_step (hb : b.Lists stored) (hmay : May b w move)
    (h : Present (step b w move).1) : Present w.1 := fun v => by
  obtain ⟨id, hid⟩ := Option.ne_none_iff_exists'.1 (h v)
  rw [receiver?_of_step hb hmay hid]
  exact Option.some_ne_none id

theorem Apart.step (hb : b.Lists stored) (hmay : May b w move) (h : Apart w.1) :
    Apart (step b w move).1 := fun v v' id hid hid' =>
  h v v' id (receiver?_of_step hb hmay hid) (receiver?_of_step hb hmay hid')

/-- What a watch has still to read for a stored registration is added or stays, unless it is told of
a loss and its listing fails. -/
theorem added_or_pending (hb : b.Lists stored) (hlasting : w.1.stopping = false)
    (hid : v.receiver? w.1 = some id) (hstored : stored w.2 key)
    (hpending : (b.bus w.2).Pending id fun e => key ∈ v.called e) :
    key ∈ added b w (.watch v) ∨ Fails b w (.watch v) ∨
      ((b.bus w.2).receive id).2.Pending id fun e => key ∈ v.called e := by
  rcases hpending.of_read with ⟨n, hlagged⟩ | ⟨e, he, hcalled | hpending⟩
  · have hlags : Lags b w v := ⟨hlasting, id, n, hid, hlagged⟩
    by_cases hanswered : Answered b w v
    · exact .inl (mem_added_of_answered hb hlags hanswered hstored)
    · exact .inr (.inl ⟨hlags, hanswered⟩)
  · refine .inl ?_
    rw [added_eq hid, hlasting, if_neg (by simp), heard, he]
    exact hcalled
  · exact .inr (.inr hpending)

/-- What is due of a stored registration is added or stays due, unless a listing fails. -/
theorem due_step (hb : b.Lists stored) (hmay : May b w move) (hapart : Apart w.1)
    (hpresent : Present (step b w move).1) (hstored : stored w.2 key) (h : Due b w key) :
    key ∈ added b w move ∨ Fails b w move ∨ Due b (step b w move) key := by
  obtain ⟨v, id, hid, hpending⟩ := h
  cases move with
  | others c s =>
    obtain ⟨hsame, hgrows⟩ := hmay v
    exact .inr (.inr ⟨v, id, hsame.trans hid, (hgrows id hid).pending hpending⟩)
  | watch v' =>
    obtain ⟨id', hid'⟩ := Option.ne_none_iff_exists'.1 (hpresent.of_step hb hmay v')
    have hmoved : Moved b v' id' w.1 w.2 (step b w (.watch v')) := moved_step hb hid'
    generalize step b w (.watch v') = w' at hpresent hmoved ⊢
    cases hmoved with
    | waits => exact .inr (.inr ⟨v, id, hid, hpending⟩)
    | ends _ gone => exact absurd gone (hpresent v')
    | goes lasting grows =>
      have hdue : ((b.bus w.2).receive id').2.Pending id (fun e => key ∈ v.called e) →
          Due b (w.1.addAll (heard b v'.called id' w.2), _) key := fun hlater =>
        ⟨v, id, (receiver?_addAll _).trans hid, (grows id).pending hlater⟩
      by_cases hsame : id = id'
      · subst hsame
        obtain rfl := hapart v v' id hid hid'
        exact (added_or_pending hb lasting hid hstored hpending).imp_right (.imp_right hdue)
      · exact .inr (.inr (hdue ((Bus.grows_receive hsame).pending hpending)))

theorem Present.of_run (hb : b.Lists stored) : ∀ {moves : List (Move σ)} {w : Controller × σ},
    Permits b w moves → Present (run b w moves).1 → Present w.1
  | [], _, _, h => h
  | _ :: _, _, hpermits, h => (Present.of_run hb hpermits.2 h).of_step hb hpermits.1

/-- What is due of a registration that stays stored is added or stays due, unless a listing fails.
-/
theorem due_run (hb : b.Lists stored) : ∀ {moves : List (Move σ)} {w : Controller × σ},
    Permits b w moves → Apart w.1 → Present (run b w moves).1 →
    (∀ front back, moves = front ++ back → stored (run b w front).2 key) → Due b w key →
    HappensIn (step b) (fun w move => key ∈ added b w move) w moves ∨
      HappensIn (step b) (Fails b) w moves ∨ Due b (run b w moves) key
  | [], _, _, _, _, _, h => .inr (.inr h)
  | move :: moves, w, hpermits, hapart, hpresent, hstored, h => by
    have hlater : Present (step b w move).1 := hpresent.of_run hb hpermits.2
    rw [happensIn_cons, happensIn_cons]
    rcases due_step hb hpermits.1 hapart hlater (hstored [] _ rfl) h with hadded | hfails | hdue
    · exact .inl (.inl hadded)
    · exact .inr (.inl (.inl hfails))
    · have hrest := due_run hb hpermits.2 (hapart.step hb hpermits.1) hpresent
        (fun front back heq => hstored (move :: front) back (by rw [heq]; rfl)) hdue
      exact hrest.imp .inr (.imp_left .inr)

theorem Idle.not_due (h : Idle b w) : ¬Due b w key := by
  rintro ⟨v, id, hid, hpending⟩
  rcases hpending.of_read with ⟨n, hread⟩ | ⟨e, hread, -⟩ <;>
    rcases h v id hid with hidle | hidle <;> rw [hread] at hidle <;> cases hidle

/-- After a watch was told of a loss, a stored registration is added just when the listing is
answered or something later leads to its key. At any time what is added is queued, and what lies
ahead of a watch for a registration that stays stored has been added by when the watches have
nothing left to read, unless another listing fails. -/
theorem lag_heeded_iff (hb : b.Lists stored) (hlags : Lags b w v) (back : List (Move σ)) :
    (∀ key, stored w.2 key →
      (HappensIn (step b) (fun w move => key ∈ added b w move) w (.watch v :: back) ↔
        Answered b w v ∨ HappensIn (step b) (fun w move => key ∈ added b w move)
          (step b w (.watch v)) back)) ∧
    (∀ (w : Controller × σ) move key, w.1.queue.stopping = false → key ∈ added b w move →
      key ∈ (step b w move).1.queue.dirty) ∧
    ∀ (w : Controller × σ) moves key, Permits b w moves → Apart w.1 →
      (∀ front back, moves = front ++ back → stored (run b w front).2 key) → Due b w key →
      Present (run b w moves).1 → Idle b (run b w moves) →
      HappensIn (step b) (fun w move => key ∈ added b w move) w moves ∨
        HappensIn (step b) (Fails b) w moves := by
  refine ⟨fun key hstored => ?_, fun w move key => mem_dirty_step hb,
    fun w moves key hpermits hapart hstored hdue hpresent hidle => ?_⟩
  · rw [happensIn_cons]
    refine or_congr_left ⟨fun hadded => ?_, fun hanswered =>
      mem_added_of_answered hb hlags hanswered hstored⟩
    by_contra hanswered
    have hfails : Fails b w (.watch v) := ⟨hlags, hanswered⟩
    rw [added_of_fails hfails] at hadded
    cases hadded
  · exact (due_run hb hpermits hapart hpresent hstored hdue).imp_right
      fun h => h.resolve_right hidle.not_due

/-- A cluster whose calls may fail. -/
def faulty : Backend (Cluster × Faults Unit) where
  toAccess := Faults.before Cluster.access fun _ s => s
  bus s := s.1.bus
  setBus bus s := ({ s.1 with bus }, s.2)

def Stored (s : Cluster × Faults Unit) (key : Key) : Prop :=
  s.1.store.Sound ∧ s.1.store.find? Registration key ≠ none

/-- A listing of a cluster fails or is that of its store. -/
theorem list_faulty (s : Cluster × Faults Unit) :
    (faulty.perform (.list Registration) s).2.1 = s.1 ∧
      ∀ regs, (faulty.perform (.list Registration) s).1 = .ok regs →
        s.1.store.list Registration = .ok regs := by
  have hperform : faulty.perform (.list Registration) s
      = Faults.perform Cluster.access (fun _ s => s) (.list Registration) s := rfl
  rw [hperform, Faults.perform]
  dsimp only
  rcases Fault.next (Call.list Registration).method (Call.list Registration).kind s.2.pending
    with ⟨_ | f, pending⟩
  · exact ⟨rfl, fun regs h => h⟩
  · have hidle : (Call.list Registration).idle = .list Registration := rfl
    rcases herror : f.error with _ | error
    · simp only [herror, hidle, ite_self]
      exact ⟨rfl, fun regs h => h⟩
    · simp only [herror]
      exact ⟨trivial, nofun⟩

theorem lists_faulty : faulty.Lists Stored where
  bus_setBus _ _ := rfl
  stored_setBus _ _ _ h := h
  grows_list s id := by
    change Bus.Grows id s.1.bus (faulty.perform (.list Registration) s).2.1.bus
    rw [(list_faulty s).1]
    exact .refl id _
  answers s regs h key hstored := by
    obtain ⟨hs, hf⟩ := hstored
    obtain ⟨os, hlist, hmem⟩ := hs.registration.list_eq_ok
    obtain rfl := Except.ok.inj (hlist.symm.trans ((list_faulty s).2 regs h))
    obtain ⟨o, ho⟩ := Option.ne_none_iff_exists'.1 hf
    exact ⟨o, hmem key o ho, (hs.registration.proper ho).key_eq⟩

/-- A start, after which two registrations come before a watch has read of the first. -/
def flood : List Launch.Move := [
  .advance, .advance, .advance, .request (.create .registration Controller.newcomer),
  .request (.create .registration (Registration.named "team" "web"))]

/-- The watch has lost the first registration, and the next listings fail. -/
def overrun (times : Nat) : Controller × Cluster × Faults Unit :=
  (Controller.fresh {} 5 0 1 1,
    (Launch.run Launch.single (Launch.begin Launch.narrow .epoch) flood).2,
    ⟨[⟨.list, kind Registration, 0, times, (), some fun _ _ => ⟨.internal "down", none⟩, false⟩],
      []⟩)

theorem stored_overrun (times : Nat) :
    Stored (overrun times).2 (Resource.key Controller.newcomer) := by
  have hbus : Bus.create 1 = .ok Launch.narrow := rfl
  have hkept : Launch.Kept (Launch.begin Launch.narrow .epoch) :=
    ⟨Store.Sound.empty, Bus.Sound.create hbus, .fresh⟩
  refine ⟨(hkept.run (by decide) flood).store, ?_⟩
  have hf : (Launch.run Launch.single (Launch.begin Launch.narrow .epoch) flood).2.store.find?
      Registration (Resource.key Controller.newcomer) ≠ none := by
    decide +kernel
  exact hf

theorem lags_overrun (times : Nat) : Lags faulty (overrun times) .registrations :=
  ⟨rfl, 0, 1, rfl, rfl⟩

theorem answered_after_loss : faulty.Lists Stored ∧ Lags faulty (overrun 0) .registrations ∧
    HappensIn (step faulty) (fun w move => Resource.key Controller.newcomer ∈ added faulty w move)
      (overrun 0) [.watch .registrations] := by
  have hanswered : Answered faulty (overrun 0) .registrations := ⟨0, _, rfl, rfl⟩
  obtain ⟨hheeded, -, -⟩ := lag_heeded_iff lists_faulty (lags_overrun 0) []
  exact ⟨lists_faulty, lags_overrun 0,
    (hheeded _ (stored_overrun 0)).2 (.inl hanswered)⟩

theorem lag_forgotten : ¬ ∀ (σ : Type) (b : Backend σ) (stored : σ → Key → Prop)
    (w : Controller × σ) (v : Watch) (back : List (Move σ)) (key : Key), b.Lists stored →
    Apart w.1 → Permits b (step b w (.watch v)) back → Lags b w v →
    Present (run b w (.watch v :: back)).1 → Idle b (run b w (.watch v :: back)) →
    stored w.2 key → stored (run b w (.watch v :: back)).2 key →
    HappensIn (step b) (fun w move => key ∈ added b w move) w (.watch v :: back) := by
  intro h
  have hapart : Apart (overrun 1).1 := fun v v' id hid hid' => by
    cases v <;> cases v' <;> cases hid <;> cases hid' <;> rfl
  have hpresent : Present
      (run faulty (overrun 1) [.watch .registrations, .watch .registrations]).1 := fun v => by
    cases v <;> exact Option.some_ne_none _
  have hidle : Idle faulty
      (run faulty (overrun 1) [.watch .registrations, .watch .registrations]) := fun v id hid => by
    cases v <;> cases hid <;> exact .inl rfl
  have hmissed := h _ faulty Stored (overrun 1) .registrations [.watch .registrations]
    (Resource.key Controller.newcomer) lists_faulty hapart ⟨trivial, trivial⟩ (lags_overrun 1)
    hpresent hidle (stored_overrun 1) (stored_overrun 1)
  rw [happensIn_cons, happensIn_cons] at hmissed
  rcases hmissed with hadded | hadded | hnothing
  · exact absurd hadded (by decide +kernel)
  · exact absurd hadded (by decide +kernel)
  · exact not_happensIn_nil hnothing

end Watches

end Registrar
