import Registrar.Proofs.Controller.Launch
import Registrar.Proofs.Controller.Outstanding

/-!
# What the watches see

From the moment that both watches are subscribed, what is told of a registration stays outstanding
until a watch adds its key: the one that reads it, or one that has lost events and lists all
registrations (`minds_step`). A change that comes before the listing, or while a key is gone, is no
exception, since a registration that is stored was listed or has been told of. So no change is
missed, whenever it comes (`watches_miss_nothing`).
-/

namespace Registrar

open Resource Parts

variable {key : Key} {bus bus' : Bus String (WatchEvent Json)} {regs doms : Nat}

namespace Launch

variable {plan : Plan} {w w' : Launch × Cluster}

/-- A controller watches with two receivers, and its workers go on with passes. -/
structure Watching (c : Controller) (regs doms : Nat) : Prop where
  registrations : c.registrations = some regs
  domains : c.domains = some doms
  stopping : c.stopping = false
  running : c.queue.stopping = false
  asks : ∀ key rest, Worker.busy key rest ∈ c.workers → rest.Asks

/-- What holds of the watches at each point of a start, and that it does not fail. -/
inductive Ready (bus : Bus String (WatchEvent Json)) : Launch → Prop
  | fresh : Ready bus .fresh
  | half {regs : Nat} (listens : bus.Listens (kind Registration) regs) :
      Ready bus (.half regs)
  | subscribed {regs doms : Nat} (listening : Listening bus regs doms) :
      Ready bus (.subscribed regs doms)
  | running {c : Controller} {regs doms : Nat}
      (listening : Listening bus regs doms)
      (watching : Watching c regs doms) : Ready bus (.running c)

theorem receivers_running {c : Controller} (h : Watching c regs doms) :
    (running c).receivers = [regs, doms] := by
  simp [receivers, h.registrations, h.domains]

theorem watches?_running {c : Controller} (h : Watching c regs doms) :
    (running c).watches? = some (regs, doms) := by
  simp [watches?, h.registrations, h.domains]

theorem Ready.grows {launch : Launch} (h : Ready bus launch)
    (hgrows : ∀ id ∈ launch.receivers, Bus.Grows id bus bus') : Ready bus' launch := by
  cases h with
  | fresh => exact .fresh
  | half listens => exact .half ((hgrows _ (by simp [receivers])).listens listens)
  | subscribed listening => exact .subscribed (listening.grows hgrows)
  | running listening watching =>
    rw [receivers_running watching] at hgrows
    exact .running (listening.grows hgrows) watching

theorem Ready.listening {launch : Launch} (h : Ready bus launch)
    (hw : launch.watches? = some (regs, doms)) :
    Listening bus regs doms := by
  cases h with
  | fresh => cases hw
  | half => cases hw
  | subscribed listening =>
    cases hw
    exact listening
  | running listening watching =>
    rw [watches?_running watching] at hw
    cases hw
    exact listening

/-- What holds after any moves. -/
structure Kept (w : Launch × Cluster) : Prop where
  store : w.2.store.Sound
  bus : w.2.bus.Sound
  ready : Ready w.2.bus w.1

/-- What a step does that tells something and adds some keys. -/
structure Minds (w : Launch × Cluster) (told : Option (String × WatchEvent Json))
    (added : List Key) (w' : Launch × Cluster) : Prop where
  kept : Kept w'
  watches : ∀ regs doms, w.1.watches? = some (regs, doms) →
    w'.1.watches? = some (regs, doms)
  changed : ∀ key, w'.2.store.find? Registration key ≠ w.2.store.find? Registration key →
    ∃ e, told = some e ∧ Concerns key e
  tells : ∀ e key regs doms, told = some e → Concerns key e →
    w.1.watches? = some (regs, doms) →
    Outstanding w'.2.bus regs doms key
  /-- What was outstanding for a registration still is, unless its key is added. -/
  heeds : ∀ key regs doms, w.1.watches? = some (regs, doms) →
    w.2.store.find? Registration key ≠ none → Outstanding w.2.bus regs doms key →
    key ∈ added ∨ Outstanding w'.2.bus regs doms key
  queued : ∀ c, w'.1 = .running c → ∀ key ∈ added, key ∈ c.queue.dirty

theorem stopping_foldl_add (keys : List Key) (q : WorkQueue Key) :
    (keys.foldl WorkQueue.add q).stopping = q.stopping := by
  induction keys generalizing q with
  | nil => rfl
  | cons k keys ih => rw [List.foldl_cons, ih, WorkQueue.stopping_add]

theorem dirty_foldl_add {keys : List Key} {q : WorkQueue Key} (hopen : q.stopping = false)
    (h : key ∈ keys ∨ key ∈ q.dirty) : key ∈ (keys.foldl WorkQueue.add q).dirty := by
  induction keys generalizing q with
  | nil => simpa using h
  | cons k keys ih =>
    refine ih (by rwa [WorkQueue.stopping_add]) ?_
    rw [WorkQueue.mem_dirty_add]
    rcases h with h | h
    · rcases List.mem_cons.1 h with rfl | h
      · exact .inr (.inr ⟨rfl, hopen⟩)
      · exact .inl h
    · exact .inr (.inl h)

theorem Watching.addAll {c : Controller} (h : Watching c regs doms) (keys : List Key) :
    Watching (c.addAll keys) regs doms :=
  { h with running := (stopping_foldl_add keys c.queue).trans h.running }

theorem mem_listed {s : Store} (hs : s.Sound) (hstored : s.find? Registration key ≠ none) :
    key ∈ ((s.list Registration).toOption.getD []).map Resource.key := by
  obtain ⟨os, hlist, hmem⟩ := hs.registration.list_eq_ok
  obtain ⟨o, ho⟩ := Option.ne_none_iff_exists'.1 hstored
  rw [hlist]
  exact List.mem_map.2 ⟨o, hmem key o ho, (hs.registration.proper ho).key_eq⟩

theorem run_listKeys {s : Cluster} (hs : s.store.Sound) :
    Controller.listKeys.run Cluster.backend.toAccess s
      = (.ok (((s.store.list Registration).toOption.getD []).map Resource.key), s) := by
  obtain ⟨os, hlist, -⟩ := hs.registration.list_eq_ok
  change ((s.store.list Registration).map (·.map Resource.key), s) = _
  rw [hlist]
  rfl

section Reading

variable {R : Type} [Resource R] (keys : R → List Key) {id : Nat} {s : Cluster} {c : Controller}

/-- A watch waits, or adds the keys that it hears of. -/
theorem watch_cases (hs : s.store.Sound) (hl : s.bus.Listens (kind R) id)
    (hstopping : c.stopping = false) :
    (Controller.watch Cluster.backend keys id c s = none ∧ heard keys id s = []) ∨
    Controller.watch Cluster.backend keys id c s
      = some (c.addAll (heard keys id s), { s with bus := (s.bus.receive id).2 }, false) := by
  have hclosed := hl.not_closed
  have hreceive : (Cluster.backend.bus s).receive id = s.bus.receive id := rfl
  rw [Controller.watch, if_neg (by simp [hstopping]), hreceive, heard]
  generalize s.bus.receive id = read at hclosed ⊢
  obtain ⟨received, bus⟩ := read
  rcases received with e | n | _ | _
  · exact .inr rfl
  · have hlist : Controller.listKeys.run Cluster.backend.toAccess (Cluster.backend.setBus bus s)
        = (.ok (((s.store.list Registration).toOption.getD []).map Resource.key), { s with bus }) :=
      run_listKeys (s := { s with bus }) hs
    refine .inr ?_
    dsimp only
    rw [hlist]
  · exact .inl ⟨rfl, rfl⟩
  · exact absurd rfl hclosed

/-- What a receiver has to read for a registration leads its watch to add the key, or still lies
ahead. -/
theorem heard_or_pending (hs : s.store.Sound) (hstored : s.store.find? Registration key ≠ none)
    (hcalled : ∀ e, Concerns key (kind R, e) → key ∈ Controller.eventKeys keys e)
    (hp : s.bus.Pending id fun e => Concerns key (kind R, e)) :
    key ∈ heard keys id s ∨ (s.bus.receive id).2.Pending id fun e => Concerns key (kind R, e) := by
  rw [heard]
  rcases hp.of_read with ⟨n, hlagged⟩ | ⟨e, he, hconcerns | hpending⟩
  · rw [hlagged]
    exact .inl (mem_listed hs hstored)
  · rw [he]
    exact .inl (hcalled e hconcerns)
  · exact .inr hpending

end Reading

theorem Ready.receivers_eq {launch : Launch} (h : Ready bus launch)
    (hw : launch.watches? = some (regs, doms)) : launch.receivers = [regs, doms] := by
  cases h with
  | fresh => cases hw
  | half => cases hw
  | subscribed =>
    cases hw
    rfl
  | running _ watching =>
    rw [watches?_running watching] at hw
    cases hw
    exact receivers_running watching

theorem Ready.listens {launch : Launch} (h : Ready bus launch) {id : Nat}
    (hid : id ∈ launch.receivers) : ∃ topic, bus.Listens topic id := by
  have hboth : ∀ {regs doms}, Listening bus regs doms → id ∈ [regs, doms] →
      ∃ topic, bus.Listens topic id := fun hl hid => by
    rcases List.mem_pair.1 hid with rfl | rfl
    · exact ⟨_, hl.registrations⟩
    · exact ⟨_, hl.domains⟩
  cases h with
  | fresh => cases hid
  | half listens =>
    obtain rfl := List.mem_singleton.1 hid
    exact ⟨_, listens⟩
  | subscribed listening => exact hboth listening hid
  | running listening watching =>
    rw [receivers_running watching] at hid
    exact hboth listening hid

namespace Minds

variable {s : Cluster} {told : Option (String × WatchEvent Json)} {launch : Launch}

/-- The cluster goes on, and the watches stay what they are. -/
theorem of_goes (h : Kept w) (hready : Ready w.2.bus launch)
    (hreceivers : launch.receivers = w.1.receivers) (hwatches : launch.watches? = w.1.watches?)
    (hgoes : Goes w.1.receivers w.2 s told) : Minds w told [] (launch, s) where
  kept := ⟨hgoes.store, hgoes.bus, hready.grows (by rw [hreceivers]; exact hgoes.grows)⟩
  watches _ _ hw := hwatches.trans hw
  changed := hgoes.changed
  tells e key regs doms he hconcerns hw :=
    hgoes.tells e key regs doms he hconcerns (h.ready.listening hw)
  heeds key regs doms hw _ hout := .inr (hout.grows (by
    rw [← h.ready.receivers_eq hw]
    exact hgoes.grows))
  queued := nofun

theorem of_cluster (h : Kept w) (hgoes : Goes w.1.receivers w.2 s told) :
    Minds w told [] (w.1, s) :=
  of_goes h h.ready rfl rfl hgoes

theorem of_bus (h : Kept w) (hb : bus.Sound)
    (hgrows : ∀ id ∈ w.1.receivers, Bus.Grows id w.2.bus bus) :
    Minds w none [] (w.1, { w.2 with bus }) :=
  of_cluster h (Goes.quiet h.store hb hgrows w.2.now)

theorem rest (h : Kept w) : Minds w none [] w :=
  of_bus h h.bus fun id _ => .refl id w.2.bus

theorem sharing {id : Nat} (h : Kept w) (hb : bus.Sound)
    (hgrows : ∀ id' ≠ id, Bus.Grows id' w.2.bus bus) :
    Minds w none [] (sharing w id bus) := by
  rw [Launch.sharing]
  split
  · exact rest h
  · rename_i hid
    exact of_bus h hb fun id' hid' => hgrows id' fun heq => hid (heq ▸ hid')

/-- The start goes on while not both watches are there. -/
theorem of_subscribe (h : Kept w) (hwatches : w.1.watches? = none) (hb : bus.Sound)
    (hready : Ready bus launch) : Minds w none [] (launch, { w.2 with bus }) where
  kept := ⟨h.store, hb, hready⟩
  watches regs doms hw := by rw [hwatches] at hw; cases hw
  changed _ hne := absurd rfl hne
  tells := nofun
  heeds key regs doms hw := by rw [hwatches] at hw; cases hw
  queued := nofun

/-- A watch reads and adds keys. -/
theorem of_read {c : Controller} {keys : List Key} {id : Nat} (h : Kept (.running c, s))
    (hw : Watching c regs doms) (hlistening : Listening (s.bus.receive id).2 regs doms)
    (hheeds : ∀ key, s.store.find? Registration key ≠ none → Outstanding s.bus regs doms key →
      key ∈ keys ∨ Outstanding (s.bus.receive id).2 regs doms key) :
    Minds (.running c, s) none keys
      (.running (c.addAll keys), { s with bus := (s.bus.receive id).2 }) where
  kept := ⟨h.store, h.bus.receive id, .running hlistening (hw.addAll keys)⟩
  watches regs' doms' hw' := by
    rw [watches?_running hw] at hw'
    rw [watches?_running (hw.addAll keys), hw']
  changed _ hne := absurd rfl hne
  tells := nofun
  heeds key regs' doms' hw' hstored hout := by
    rw [watches?_running hw] at hw'
    cases hw'
    exact hheeds key hstored hout
  queued c' hc key hkey := by
    cases hc
    exact dirty_foldl_add hw.running (.inl hkey)

end Minds

/-! ## The workers -/

namespace Watching

variable {c : Controller} (h : Watching c regs doms)
include h

theorem withQueue {queue : WorkQueue Key} (hopen : queue.stopping = false) :
    Watching { c with queue } regs doms :=
  { h with running := hopen }

theorem setWorker (i : Nat) {worker : Worker}
    (hasks : ∀ key rest, worker = .busy key rest → rest.Asks) :
    Watching (c.setWorker i worker) regs doms :=
  { h with
    asks := fun key rest hmem => (List.mem_or_eq_of_mem_set hmem).elim (h.asks key rest)
      fun heq => hasks key rest heq.symm }

theorem follow (key : Key) (now : Nat) (result : Except PassError Outcome) :
    Watching (c.follow key now result) regs doms := by
  have hopen : (c.queue.add key).stopping = false := (WorkQueue.stopping_add _ _).trans h.running
  rcases result with e | _ | _
  · rw [Controller.follow, Controller.addAfter]
    split
    · exact h.withQueue hopen
    · exact { h with }
  · exact h
  · exact h.withQueue hopen

theorem expire (now : Nat) : Watching (c.expire now) regs doms := by
  have hrest : Watching { c with delayed := (c.delayed.partition (·.1 ≤ now)).2 } regs doms :=
    { h with }
  exact hrest.addAll _

end Watching

theorem told_work_of_none {c : Controller} {s : Cluster} {i now : Nat}
    (hwork : c.work? Cluster.backend now i s = none) :
    told (.running c, s) (.work i now) = none := by
  rw [told]
  dsimp only
  split
  · rename_i hworker
    simp [Controller.work?, hworker] at hwork
  · rfl

theorem minds_work {c : Controller} {s : Cluster} (h : Kept (.running c, s))
    (hw : Watching c regs doms) (i now : Nat) :
    Minds (.running c, s) (told (.running c, s) (.work i now)) []
      (step plan (.running c, s) (.work i now)) := by
  have hgoes : ∀ {c' s' told}, Watching c' regs doms → Goes [regs, doms] s s' told →
      Minds (.running c, s) told [] (.running c', s') := fun hw' hgoes =>
    .of_goes h (.running (h.ready.listening (watches?_running hw)) hw')
      ((receivers_running hw').trans (receivers_running hw).symm)
      ((watches?_running hw').trans (watches?_running hw).symm)
      (by rwa [receivers_running hw])
  have hquiet : ∀ {c'}, Watching c' regs doms → Minds (.running c, s) none [] (.running c', s) :=
    fun hw' => hgoes hw' (.quiet h.store h.bus (fun id _ => .refl id s.bus) s.now)
  rw [step, going]
  dsimp only
  rcases hwork : c.work? Cluster.backend now i s with _ | ⟨c', s'⟩
  · rw [told_work_of_none hwork]
    exact .rest h
  · cases Controller.works_of_work? hwork with
    | @begins key queue idle taken =>
      have hopen : queue.stopping = false := (WorkQueue.of_take? taken).1.trans hw.running
      have hasks : ∀ key' rest, Worker.busy key (c.reconciler.reconcile key).run = .busy key' rest →
          rest.Asks := by
        rintro key' rest heq
        cases heq
        exact c.reconciler.asks_reconcile key
      simpa [told, idle] using hquiet ((hw.withQueue hopen).setWorker i hasks)
    | leaves idle => simpa [told, idle] using hquiet (hw.setWorker i (by simp))
    | @calls key α call next busy =>
      have hcall := hw.asks key _ (List.mem_of_getElem? busy)
      have hworker : Watching (c.setWorker i (.busy key (next (Cluster.backend.perform call s).1)))
          regs doms := by
        refine hw.setWorker i fun key' rest heq => ?_
        cases heq
        exact hcall.2 _
      have htold : told (.running c, s) (.work i now) = s.store.told s.now call := by
        simp [told, busy]
      rw [htold]
      obtain ⟨r⟩ := hcall.1
      exact hgoes hworker (.request h.store h.bus [regs, doms] r)
    | @reads key next busy =>
      have hcall := hw.asks key _ (List.mem_of_getElem? busy)
      have hworker : Watching (c.setWorker i (.busy key (next (Cluster.backend.now s)))) regs
          doms := by
        refine hw.setWorker i fun key' rest heq => ?_
        cases heq
        exact hcall _
      simpa [told, busy] using hquiet hworker
    | @ends key result busy =>
      simpa [told, busy] using hquiet ((hw.follow key now result).setWorker i (by simp))
    | @gives key finishing =>
      have hopen : (c.queue.done key).stopping = false :=
        (WorkQueue.stopping_done _ _).trans hw.running
      simpa [told, finishing] using hquiet ((hw.withQueue hopen).setWorker i (by simp))

/-! ## The watches -/

theorem minds_watchRegistrations {c : Controller} {s : Cluster} (h : Kept (.running c, s))
    (hw : Watching c regs doms) : Minds (.running c, s) none
      (added (.running c, s) .watchRegistrations)
      (step plan (.running c, s) .watchRegistrations) := by
  have hl := h.ready.listening (watches?_running hw)
  have hadded : added (.running c, s) .watchRegistrations
      = heard (fun r : Registration => [Resource.key r]) regs s := by
    simp [added, hw.registrations]
  rw [hadded, step, going]
  dsimp only
  rw [Controller.watchRegistrations?, hw.registrations]
  dsimp only
  rcases watch_cases (fun r : Registration => [Resource.key r]) h.store hl.registrations
    hw.stopping with ⟨hwatch, hheard⟩ | hwatch
  · rw [hwatch, hheard]
    exact .rest h
  · rw [hwatch]
    have hgrows : Bus.Grows doms s.bus (s.bus.receive regs).2 := Bus.grows_receive hl.apart.symm
    refine .of_read h hw ⟨hl.registrations.receive, hgrows.listens hl.domains, hl.apart⟩
      fun key hstored hout => ?_
    rcases hout with hregs | hdoms
    · have hheard :=
        heard_or_pending _ h.store hstored (fun e => Concerns.called_registration) hregs
      exact hheard.imp_right .inl
    · exact .inr (.inr (hgrows.pending hdoms))

theorem minds_watchDomains {c : Controller} {s : Cluster} (h : Kept (.running c, s))
    (hw : Watching c regs doms) : Minds (.running c, s) none
      (added (.running c, s) .watchDomains) (step plan (.running c, s) .watchDomains) := by
  have hl := h.ready.listening (watches?_running hw)
  have hadded : added (.running c, s) .watchDomains = heard Domain.registrationKeys doms s := by
    simp [added, hw.domains]
  rw [hadded, step, going]
  dsimp only
  rw [Controller.watchDomains?, hw.domains]
  dsimp only
  rcases watch_cases Domain.registrationKeys h.store hl.domains hw.stopping
    with ⟨hwatch, hheard⟩ | hwatch
  · rw [hwatch, hheard]
    exact .rest h
  · rw [hwatch]
    have hgrows : Bus.Grows regs s.bus (s.bus.receive doms).2 := Bus.grows_receive hl.apart
    refine .of_read h hw ⟨hgrows.listens hl.registrations, hl.domains.receive, hl.apart⟩
      fun key hstored hout => ?_
    rcases hout with hregs | hdoms
    · exact .inr (.inl (hgrows.pending hregs))
    · have hheard := heard_or_pending _ h.store hstored (fun e => Concerns.called_domain) hdoms
      exact hheard.imp_right .inr

/-! ## The start -/

/-- On a sound bus a subscription is granted, and leaves the other receivers what they have. -/
theorem subscribe_granted (R : Type) [Resource R] (context : String) {s : Cluster}
    (hb : s.bus.Sound) : ∃ id bus, Controller.subscribe Cluster.backend R context s
        = .ok (id, { s with bus }) ∧ id = s.bus.issued ∧ bus.Sound ∧ bus.Listens (kind R) id ∧
      ∀ id', (∃ r, s.bus.receivers.lookup id' = some r) → Bus.Grows id' s.bus bus := by
  have hsubscribe := Bus.subscribe_eq s.bus (kind R) none hb.capacity
  obtain ⟨hsound, hlistens⟩ := hb.subscribe hsubscribe
  have hbus : (Cluster.backend.bus s).subscribe (kind R) none = s.bus.subscribe (kind R) none := rfl
  refine ⟨_, _, ?_, rfl, hsound, hlistens, fun id' hr => Bus.grows_subscribe hr hsubscribe⟩
  rw [Controller.subscribe, hbus, hsubscribe]
  rfl

/-- The last step of a start queues what it lists. -/
theorem advance_subscribed (plan : Plan) (h : Kept w) (hw : w.1 = .subscribed regs doms) :
    advance Cluster.backend plan w = (.running ((Controller.fresh plan.reconciler plan.retryDelay
      regs doms plan.workers).addAll (added w .advance)), w.2) := by
  rw [advance, added, hw]
  dsimp only
  rw [run_listKeys h.store]

theorem minds_advance (hworkers : plan.workers ≠ 0) (h : Kept w) :
    Minds w none (added w .advance) (step plan w .advance) := by
  obtain ⟨launch, s⟩ := w
  rw [step, advance]
  have hready : Ready s.bus launch := h.ready
  cases hready with
  | fresh =>
    obtain ⟨id, bus, hsubscribe, -, hsound, hlistens, -⟩ :=
      subscribe_granted Registration "Subscribing to registration events" h.bus
    dsimp only
    rw [if_neg hworkers, hsubscribe]
    exact .of_subscribe h rfl hsound (.half hlistens)
  | @half regs listens =>
    obtain ⟨id, bus, hsubscribe, hid, hsound, hlistens, hgrows⟩ :=
      subscribe_granted Domain "Subscribing to domain events" h.bus
    obtain ⟨r, hr⟩ := listens.lookup
    have hapart : regs ≠ id := by
      have hlt := h.bus.receivers regs r hr
      omega
    dsimp only
    rw [hsubscribe]
    exact .of_subscribe h rfl hsound
      (.subscribed ⟨(hgrows regs ⟨r, hr⟩).listens listens, hlistens, hapart⟩)
  | @subscribed regs doms listening =>
    have hadvance := advance_subscribed plan h rfl
    rw [advance] at hadvance
    rw [hadvance]
    have hwatching : Watching (Controller.fresh plan.reconciler plan.retryDelay regs doms
        plan.workers) regs doms :=
      ⟨rfl, rfl, rfl, rfl, fun key rest hmem => by simp [Controller.fresh] at hmem⟩
    exact {
      kept := ⟨h.store, h.bus, .running listening (hwatching.addAll _)⟩
      watches := fun _ _ hw => (watches?_running (hwatching.addAll _)).trans hw
      changed := fun _ hne => absurd rfl hne
      tells := fun _ _ _ _ he => by cases he
      heeds := fun _ _ _ _ hstored _ => .inl (mem_listed h.store hstored)
      queued := fun c hc key hkey => by
        cases hc
        exact dirty_foldl_add rfl (.inl hkey) }
  | running => exact .rest h

/-! ## Runs -/

theorem minds_step (hworkers : plan.workers ≠ 0) (h : Kept w) (move : Move) :
    Minds w (told w move) (added w move) (step plan w move) := by
  cases move with
  | advance => exact minds_advance hworkers h
  | watchRegistrations =>
    obtain ⟨launch, s⟩ := w
    have hready : Ready s.bus launch := h.ready
    cases hready with
    | fresh | half | subscribed => exact .rest h
    | running _ watching => exact minds_watchRegistrations h watching
  | watchDomains =>
    obtain ⟨launch, s⟩ := w
    have hready : Ready s.bus launch := h.ready
    cases hready with
    | fresh | half | subscribed => exact .rest h
    | running _ watching => exact minds_watchDomains h watching
  | work i now =>
    obtain ⟨launch, s⟩ := w
    have hready : Ready s.bus launch := h.ready
    cases hready with
    | fresh | half | subscribed => exact .rest h
    | running _ watching => exact minds_work h watching i now
  | expire now =>
    obtain ⟨launch, s⟩ := w
    have hready : Ready s.bus launch := h.ready
    cases hready with
    | fresh | half | subscribed => exact .rest h
    | @running c regs doms listening watching =>
      have hlater := watching.expire now
      exact .of_goes h (.running listening hlater)
        ((receivers_running hlater).trans (receivers_running watching).symm)
        ((watches?_running hlater).trans (watches?_running watching).symm)
        (.quiet h.store h.bus (fun id _ => .refl id s.bus) s.now)
  | request r => exact .of_cluster h (.request h.store h.bus _ r)
  | clock now => exact .of_cluster h (.quiet h.store h.bus (fun id _ => .refl id w.2.bus) now)
  | subscribe topic capacity =>
    rw [step]
    split
    · rename_i id bus hsubscribe
      refine .of_bus h (h.bus.subscribe hsubscribe).1 fun id hid => ?_
      obtain ⟨topic, hlistens⟩ := h.ready.listens hid
      exact Bus.grows_subscribe hlistens.lookup hsubscribe
    · exact .rest h
  | receive id => exact .sharing h (h.bus.receive id) fun _ hne => Bus.grows_receive hne
  | drop id => exact .sharing h (h.bus.drop id) fun _ hne => Bus.grows_drop hne

section Runs

variable (hworkers : plan.workers ≠ 0)
include hworkers

theorem Kept.run : ∀ (moves : List Move) {w : Launch × Cluster}, Kept w →
    Kept (run plan w moves)
  | [], _, h => h
  | move :: moves, _, h => Kept.run moves (minds_step hworkers h move).kept

theorem watches?_run : ∀ (moves : List Move) {w : Launch × Cluster}, Kept w →
    w.1.watches? = some (regs, doms) → (run plan w moves).1.watches? = some (regs, doms)
  | [], _, _, hw => hw
  | move :: moves, _, h, hw =>
    have hminds := minds_step hworkers h move
    watches?_run moves hminds.kept (hminds.watches regs doms hw)

/-- What is outstanding for a registration, if it is stored, stays so until its key is added. -/
theorem outstanding_run : ∀ (moves : List Move) {w : Launch × Cluster}, Kept w →
    w.1.watches? = some (regs, doms) →
    (w.2.store.find? Registration key ≠ none → Outstanding w.2.bus regs doms key) →
    HappensIn (step plan) (fun w move => key ∈ added w move) w moves ∨
    ((run plan w moves).2.store.find? Registration key ≠ none →
      Outstanding (run plan w moves).2.bus regs doms key)
  | [], _, _, _, hout => .inr hout
  | move :: moves, w, h, hw, hout => by
    have hminds := minds_step hworkers h move
    rw [happensIn_cons]
    by_cases hadded : key ∈ added w move
    · exact .inl (.inl hadded)
    · have hw' := hminds.watches regs doms hw
      refine (outstanding_run moves hminds.kept hw' fun hstored => ?_).imp_left .inr
      by_cases hsame : (step plan w move).2.store.find? Registration key
          = w.2.store.find? Registration key
      · rw [hsame] at hstored
        exact (hminds.heeds key regs doms hw hstored (hout hstored)).resolve_left hadded
      · obtain ⟨e, he, hconcerns⟩ := hminds.changed key hsame
        exact hminds.tells e key regs doms he hconcerns hw

/-- A start that has not begun, on an empty store. -/
def begin (bus : Bus String (WatchEvent Json)) (now : Time) : Launch × Cluster :=
  (.fresh, ⟨.empty, bus, now⟩)

/-- A start does not fail, and its listing queues every registration that is stored. What the
watches add is queued, and every change of a registration is told. What is told after both watches
have subscribed and concerns a registration that is stored in the end has led one of them to add its
key since, or one of them has still to read what concerns it or to be told that it lost something.
-/
theorem watches_miss_nothing {capacity : Nat} (hbus : Bus.create capacity = .ok bus) (now : Time) :
    (∀ moves e, (run plan (begin bus now) moves).1 ≠ .failed e) ∧
    (∀ front regs doms, (run plan (begin bus now) front).1 = .subscribed regs doms →
      ∃ c, (run plan (begin bus now) (front ++ [.advance])).1 = .running c ∧
        ∀ key, (run plan (begin bus now) front).2.store.find? Registration key ≠ none →
          key ∈ c.queue.dirty) ∧
    (∀ front move key c, key ∈ added (run plan (begin bus now) front) move →
      (run plan (begin bus now) (front ++ [move])).1 = .running c → key ∈ c.queue.dirty) ∧
    (∀ front move key, (run plan (begin bus now) (front ++ [move])).2.store.find? Registration key
        ≠ (run plan (begin bus now) front).2.store.find? Registration key →
      ∃ e, told (run plan (begin bus now) front) move = some e ∧ Concerns key e) ∧
    ∀ front move back e key regs doms,
      (run plan (begin bus now) front).1.watches? = some (regs, doms) →
      told (run plan (begin bus now) front) move = some e → Concerns key e →
      (run plan (begin bus now) (front ++ move :: back)).1.watches? = some (regs, doms) ∧
      ((run plan (begin bus now) (front ++ move :: back)).2.store.find? Registration key ≠ none →
        HappensIn (step plan) (fun w move => key ∈ added w move)
          (run plan (begin bus now) (front ++ [move])) back ∨
        Outstanding (run plan (begin bus now) (front ++ move :: back)).2.bus regs doms key) := by
  have hkept : ∀ moves, Kept (run plan (begin bus now) moves) := fun moves =>
    Kept.run hworkers moves ⟨Store.Sound.empty, Bus.Sound.create hbus, .fresh⟩
  have hminds := fun front move => minds_step hworkers (hkept front) move
  have hsnoc : ∀ front move, run plan (begin bus now) (front ++ [move])
      = step plan (run plan (begin bus now) front) move := fun front move => by
    rw [run, List.foldl_append]
    rfl
  refine ⟨fun moves e he => ?_, fun front regs doms hlaunch => ?_,
    fun front move key c hkey hc => ?_, fun front move key hne => ?_,
    fun front move back e key regs doms hw he hconcerns => ?_⟩
  · have hready := (hkept moves).ready
    rw [he] at hready
    cases hready
  · have hadvance := advance_subscribed plan (hkept front) hlaunch
    refine ⟨_, by rw [hsnoc, step, hadvance], fun key hstored => ?_⟩
    refine dirty_foldl_add rfl (.inl ?_)
    rw [added, hlaunch]
    exact mem_listed (hkept front).store hstored
  · rw [hsnoc] at hc
    exact (hminds front move).queued c hc key hkey
  · rw [hsnoc] at hne
    exact (hminds front move).changed key hne
  · have hstep := hminds front move
    have hrun : run plan (begin bus now) (front ++ move :: back)
        = run plan (step plan (run plan (begin bus now) front) move) back := by
      rw [run, List.foldl_append]
      rfl
    rw [hsnoc, hrun]
    have hw' := hstep.watches regs doms hw
    have hout := outstanding_run hworkers back hstep.kept hw' fun _ =>
      hstep.tells e key regs doms he hconcerns hw
    exact ⟨watches?_run hworkers back hstep.kept hw', fun hstored =>
      hout.imp_right fun hout => hout hstored⟩

end Runs

/-- A bus that holds one event of each kind. -/
def narrow : Bus String (WatchEvent Json) :=
  .idle 1

def single : Plan where
  reconciler := {}
  workers := 1
  retryDelay := 5

/-- A second registration is created before the watch has read of the first, which is lost. -/
def overtaken : List Move :=
  [.request (.create .registration (Registration.named "team" "web")), .watchRegistrations]

theorem lost_creation_seen : Bus.create 1 = .ok narrow ∧ single.workers ≠ 0 ∧
    (HappensIn (step single) (fun w move => Resource.key Controller.newcomer ∈ added w move)
      (run single (begin narrow .epoch) ([.advance, .advance, .advance] ++
        [.request (.create .registration Controller.newcomer)])) overtaken ∨
    Outstanding (run single (begin narrow .epoch) ([.advance, .advance, .advance] ++
      .request (.create .registration Controller.newcomer) :: overtaken)).2.bus 0 1
      (Resource.key Controller.newcomer)) := by
  have hworkers : single.workers ≠ 0 := by decide
  obtain ⟨-, -, -, hchanged, hseen⟩ :=
    watches_miss_nothing hworkers (rfl : Bus.create 1 = .ok narrow) .epoch
  obtain ⟨e, he, hconcerns⟩ := hchanged [.advance, .advance, .advance]
    (.request (.create .registration Controller.newcomer)) (Resource.key Controller.newcomer)
    (by decide +kernel)
  exact ⟨rfl, hworkers, (hseen [.advance, .advance, .advance] _ overtaken e _ 0 1
    (by decide +kernel) he hconcerns).2 (by decide +kernel)⟩

end Launch

end Registrar
