import Registrar.Proofs.Bus.Wiring

/-!
# What a bus accounts for

Whatever is asked of a bus, what a receiver is told accounts for the events of its topic in the order
in which they were published, since it subscribed and until the bus was shut down, and what is left is
what it has still to read. A loss is told just when more is left than the channel holds. The number
that a publication answers is that of the receivers which have subscribed to the topic since the last
shutdown and are in use (`bus_accounts`).
-/

namespace Registrar

namespace Bus

inductive Request (τ ε : Type) where
  | subscribe (topic : τ) (capacity : Option Nat)
  | publish (topic : τ) (e : ε)
  | receive (id : Nat)
  | receiveEvent (id : Nat)
  | drop (id : Nat)
  | shutdown

namespace Request

variable {τ ε : Type}

def isShutdown : Request τ ε → Bool
  | .shutdown => true
  | _ => false

/-- The events that a request has for a topic. -/
def news [BEq τ] (topic : τ) : Request τ ε → List ε
  | .publish t e => if t == topic then [e] else []
  | _ => []

end Request

variable {τ ε : Type}

def Received.isLoss : Received ε → Bool
  | .lagged _ => true
  | _ => false

section Runs

variable [BEq τ]

/-- The bus after a request. -/
def serve (bus : Bus τ ε) : Request τ ε → Bus τ ε
  | .subscribe topic capacity =>
    match bus.subscribe topic capacity with
    | .ok (_, bus) => bus
    | .error _ => bus
  | .publish topic e => (bus.publish topic e).2
  | .receive id => (bus.receive id).2
  | .receiveEvent id => (bus.receiveEvent id).2
  | .drop id => bus.drop id
  | .shutdown => bus.shutdown.2

def after (bus : Bus τ ε) : List (Request τ ε) → Bus τ ε
  | [] => bus
  | r :: rest => (bus.serve r).after rest

/-- What a receiver is told in answer to a request, the loss included that it is led past. -/
def told (bus : Bus τ ε) (id : Nat) : Request τ ε → List (Received ε)
  | .receive i => if i = id then [(bus.receive id).1] else []
  | .receiveEvent i =>
    if i = id then
      match bus.receive id with
      | (.lagged n, bus) => [.lagged n, (bus.receive id).1]
      | (received, _) => [received]
    else []
  | _ => []

def reports (bus : Bus τ ε) (id : Nat) : List (Request τ ε) → List (Received ε)
  | [] => []
  | r :: rest => bus.told id r ++ (bus.serve r).reports id rest

/-- The events published on a topic before the bus is shut down. -/
def heard (topic : τ) : List (Request τ ε) → List ε
  | [] => []
  | .shutdown :: _ => []
  | r :: rest => r.news topic ++ heard topic rest

/-- The receivers of a topic after a request. -/
def enlisted (bus : Bus τ ε) (topic : τ) (listed : List Nat) : Request τ ε → List Nat
  | .subscribe t capacity =>
    match bus.subscribe t capacity with
    | .ok (id, _) => listed ++ if t == topic then [id] else []
    | .error _ => listed
  | .drop id => listed.filter (· != id)
  | .shutdown => []
  | _ => listed

/-- The receivers that have subscribed to a topic since the last shutdown and are in use. -/
def subscribers (bus : Bus τ ε) (topic : τ) (listed : List Nat) : List (Request τ ε) → List Nat
  | [] => listed
  | r :: rest => (bus.serve r).subscribers topic (bus.enlisted topic listed r) rest

/-- The capacity that a topic was opened with, after a request of a bus with the given capacity. -/
def opens (capacity : Nat) (topic : τ) (opened : Option Nat) : Request τ ε → Option Nat
  | .subscribe t asked => opened.or
      (if t == topic && asked.getD capacity != 0 then some (asked.getD capacity) else none)
  | .publish t _ => opened.or (if t == topic then some capacity else none)
  | .shutdown => none
  | _ => opened

/-- The capacity asked for by the first who subscribed or published since the last shutdown. -/
def opening (capacity : Nat) (topic : τ) (requests : List (Request τ ε)) : Option Nat :=
  requests.foldl (opens capacity topic) none

theorem after_append (bus : Bus τ ε) : ∀ front back : List (Request τ ε),
    bus.after (front ++ back) = (bus.after front).after back
  | [], _ => rfl
  | r :: front, back => after_append (bus.serve r) front back

end Runs

namespace Tuned

variable [BEq τ] {bus : Bus τ ε} {topic : τ} {id : Nat} {m : Mailbox ε}

/-- A receiver that reads an event reads past a loss. -/
theorem receiveEvent (h : bus.Tuned topic id m) : (bus.receiveEvent id).1 = m.next ∧
    if m.capacity < m.unread.length then
      bus.told id (.receiveEvent id) = [.lagged m.overdue, m.next] ∧
        (bus.receiveEvent id).2.Tuned topic id m.read.2.read.2
    else bus.told id (.receiveEvent id) = [m.next] ∧
      (bus.receiveEvent id).2.Tuned topic id m.read.2 := by
  obtain ⟨hreport, htuned⟩ := h.receive
  rw [m.fst_read] at hreport
  simp only [told, if_pos, Bus.receiveEvent]
  rcases hread : bus.receive id with ⟨received, bus'⟩
  rw [hread] at hreport htuned
  dsimp only at hreport htuned
  by_cases hlag : m.capacity < m.unread.length
  · rw [if_pos hlag] at hreport ⊢
    subst hreport
    obtain ⟨hreport', htuned'⟩ := htuned.receive
    rw [Mailbox.fst_read_of_loss hlag] at hreport'
    exact ⟨hreport', by rw [← hreport'], htuned'⟩
  · rw [if_neg hlag] at hreport ⊢
    subst hreport
    rcases hnext : m.next with e | n | _ | _
    · exact ⟨rfl, rfl, htuned⟩
    · exact absurd hnext (m.next_ne_lagged n)
    · exact ⟨rfl, rfl, htuned⟩
    · exact ⟨rfl, rfl, htuned⟩

/-- What a receiver is told in answer to a request, and what it has then to read, is what it had to
read and the news. -/
theorem serve [LawfulBEq τ] (h : bus.Tuned topic id m) {r : Request τ ε} (hr : r ≠ .drop id) :
    ∃ read m', Accounts (bus.told id r) read ∧ (bus.serve r).Tuned topic id m' ∧
      m.unread ++ (if m.isOpen then r.news topic else []) = read ++ m'.unread ∧
      m'.capacity = m.capacity ∧ m'.isOpen = (m.isOpen && !r.isShutdown) := by
  cases r with
  | subscribe t capacity =>
    refine ⟨[], m, .nil, ?_, by simp [Request.news], rfl, by simp [Request.isShutdown]⟩
    rw [Bus.serve]
    rcases hs : bus.subscribe t capacity with e | ⟨other, bus'⟩
    · exact h
    · obtain ⟨-, rfl⟩ := subscribe_eq_ok hs
      exact (h.channelOf t _).enroll _
  | publish t e =>
    refine ⟨[], _, .nil, h.publish t e, ?_, rfl, by simp [Request.isShutdown]⟩
    rw [Request.news, List.nil_append]
    cases m.isOpen <;> rfl
  | receive i =>
    by_cases hi : i = id
    · subst hi
      obtain ⟨hreport, htuned⟩ := h.receive
      obtain ⟨read, haccounts, hread⟩ := m.accounts_read
      refine ⟨read, _, ?_, htuned, by simpa [Request.news] using hread, by simp,
        by simp [Request.isShutdown]⟩
      simpa [told, hreport] using haccounts
    · exact ⟨[], m, by simpa [told, hi] using .nil, h.receive_other (Ne.symm hi),
        by simp [Request.news], rfl, by simp [Request.isShutdown]⟩
  | receiveEvent i =>
    by_cases hi : i = id
    · subst hi
      obtain ⟨read, haccounts, hread⟩ := m.accounts_read
      obtain ⟨-, hloss⟩ := h.receiveEvent
      rw [m.fst_read] at haccounts
      split at hloss
      · rename_i hlag
        obtain ⟨htold, htuned⟩ := hloss
        obtain ⟨read', haccounts', hread'⟩ := m.read.2.accounts_read
        rw [if_pos hlag] at haccounts
        rw [Mailbox.fst_read_of_loss hlag] at haccounts'
        exact ⟨read ++ read', _, htold ▸ haccounts.append haccounts', htuned,
          by simp [Request.news, hread, hread'], by simp, by simp [Request.isShutdown]⟩
      · rename_i hfits
        obtain ⟨htold, htuned⟩ := hloss
        rw [if_neg hfits] at haccounts
        exact ⟨read, _, htold ▸ haccounts, htuned, by simpa [Request.news] using hread, by simp,
          by simp [Request.isShutdown]⟩
    · exact ⟨[], m, by simpa [told, hi] using .nil, h.receiveEvent_other (Ne.symm hi),
        by simp [Request.news], rfl, by simp [Request.isShutdown]⟩
  | drop i =>
    have hne : id ≠ i := fun hi => hr (hi ▸ rfl)
    exact ⟨[], m, .nil, h.drop_other hne, by simp [Request.news], rfl, by simp [Request.isShutdown]⟩
  | shutdown =>
    exact ⟨[], _, .nil, h.shutdown, by simp [Request.news], rfl, by simp [Request.isShutdown]⟩

/-- What a receiver is told in answer to requests, and what it has then to read, is what it had to
read and what it has heard since. -/
theorem after [LawfulBEq τ] : ∀ {requests : List (Request τ ε)} {bus : Bus τ ε} {m : Mailbox ε},
    bus.Tuned topic id m → .drop id ∉ requests →
    ∃ read m', Accounts (bus.reports id requests) read ∧ (bus.after requests).Tuned topic id m' ∧
      m.unread ++ (if m.isOpen then heard topic requests else []) = read ++ m'.unread ∧
      m'.capacity = m.capacity ∧ m'.isOpen = (m.isOpen && !requests.any (·.isShutdown))
  | [], _, m, h, _ => ⟨[], m, .nil, h, by simp [heard], rfl, by simp⟩
  | r :: rest, bus, m, h, hkept => by
    rw [List.mem_cons, not_or] at hkept
    obtain ⟨read, m', haccounts, htuned, hread, hcapacity, hopen⟩ := h.serve (Ne.symm hkept.1)
    obtain ⟨read', m'', haccounts', htuned', hread', hcapacity', hopen'⟩ := after htuned hkept.2
    refine ⟨read ++ read', m'', haccounts.append haccounts', htuned', ?_,
      hcapacity'.trans hcapacity, ?_⟩
    · rw [List.append_assoc, ← hread', ← List.append_assoc, ← hread, hopen, List.append_assoc]
      cases r <;> cases m.isOpen <;> simp [heard, Request.news, Request.isShutdown]
    · rw [hopen', hopen, List.any_cons, Bool.not_or, Bool.and_assoc]

end Tuned

section Serving

variable [BEq τ] {bus : Bus τ ε}

theorem capacity_channelOf (bus : Bus τ ε) (t : τ) (capacity : Nat) :
    (bus.channelOf t capacity).2.capacity = bus.capacity := by
  rw [channelOf]
  split <;> rfl

theorem Wired.capacity_serve (h : bus.Wired) (r : Request τ ε) :
    (bus.serve r).capacity = bus.capacity := by
  cases r with
  | subscribe t asked =>
    rw [Bus.serve]
    rcases hs : bus.subscribe t asked with e | ⟨id, bus'⟩
    · rfl
    · obtain ⟨-, rfl⟩ := subscribe_eq_ok hs
      exact capacity_channelOf bus t _
  | publish t e =>
    rw [Bus.serve, Bus.publish]
    dsimp only
    split <;> exact capacity_channelOf bus t _
  | receive id => exact (h.alike_receive id).capacity
  | receiveEvent id => exact (h.alike_receiveEvent id).1.capacity
  | drop | shutdown => rfl

/-- A request does to the receivers of a topic and to its channel what is said of it. -/
theorem Wired.serve [LawfulBEq τ] (h : bus.Wired) (r : Request τ ε) :
    (bus.serve r).Wired ∧
    (∀ topic, (bus.serve r).live topic = bus.enlisted topic (bus.live topic) r) ∧
    ∀ topic opened, bus.held topic = Option.map powerOfTwoAbove opened →
      (bus.serve r).held topic = (opens bus.capacity topic opened r).map powerOfTwoAbove := by
  have hor : ∀ (opened : Option Nat) (b : Bool) (capacity : Nat),
      (opened.map powerOfTwoAbove).or (if b then some (powerOfTwoAbove capacity) else none)
        = (opened.or (if b then some capacity else none)).map powerOfTwoAbove := by
    intro opened b capacity
    cases opened <;> cases b <;> rfl
  cases r with
  | subscribe t asked =>
    simp only [Bus.serve, enlisted]
    rcases hs : bus.subscribe t asked with e | ⟨id, bus'⟩
    · have hzero : asked.getD bus.capacity = 0 := by
        by_contra hne
        rw [subscribe_eq bus t asked hne] at hs
        cases hs
      exact ⟨h, fun _ => rfl, fun topic opened hheld => by simpa [opens, hzero] using hheld⟩
    · have hne : asked.getD bus.capacity ≠ 0 := by
        intro hzero
        rw [Bus.subscribe, checkCapacity, if_pos hzero] at hs
        cases hs
      obtain ⟨hwired, hlive, hheld'⟩ := h.subscribe hs
      refine ⟨hwired, hlive, fun topic opened hheld => ?_⟩
      have hasked : (t == topic && asked.getD bus.capacity != 0) = (t == topic) := by
        simp [hne]
      rw [hheld', hheld, opens, hasked]
      exact hor _ _ _
  | publish t e =>
    obtain ⟨-, hwired, hlive, hheld'⟩ := h.publish t e
    refine ⟨hwired, hlive, fun topic opened hheld => ?_⟩
    rw [Bus.serve, hheld', hheld]
    exact hor _ _ _
  | receive id =>
    have halike := h.alike_receive id
    exact ⟨h.receive id, halike.live_eq, fun topic _ hheld => (halike.held_eq topic).trans hheld⟩
  | receiveEvent id =>
    obtain ⟨halike, hwired⟩ := h.alike_receiveEvent id
    exact ⟨hwired, halike.live_eq, fun topic _ hheld => (halike.held_eq topic).trans hheld⟩
  | drop id =>
    obtain ⟨hwired, hlive, hheld'⟩ := h.drop id
    exact ⟨hwired, hlive, fun topic _ hheld => (hheld' topic).trans hheld⟩
  | shutdown =>
    obtain ⟨hwired, hlive, hheld'⟩ := h.shutdown
    exact ⟨hwired, hlive, fun topic _ _ => hheld' topic⟩

theorem Wired.after [LawfulBEq τ] : ∀ (requests : List (Request τ ε)) {bus : Bus τ ε}, bus.Wired →
    (bus.after requests).Wired ∧
    (∀ topic, (bus.after requests).live topic
      = bus.subscribers topic (bus.live topic) requests) ∧
    ∀ topic opened, bus.held topic = Option.map powerOfTwoAbove opened →
      (bus.after requests).held topic
        = (requests.foldl (opens bus.capacity topic) opened).map powerOfTwoAbove
  | [], _, h => ⟨h, fun _ => rfl, fun _ _ hheld => hheld⟩
  | r :: rest, bus, h => by
    obtain ⟨hwired, hlive, hheld⟩ := h.serve r
    obtain ⟨hwired', hlive', hheld'⟩ := after rest hwired
    refine ⟨hwired', fun topic => ?_, fun topic opened hopened => ?_⟩
    · rw [Bus.after, subscribers, hlive', hlive]
    · rw [Bus.after, List.foldl_cons, hheld' topic _ (hheld topic opened hopened),
        h.capacity_serve r]

theorem Wired.create {capacity : Nat} (h : Bus.create capacity = .ok bus) : bus.Wired ∧
    bus.capacity = capacity ∧ (∀ topic, bus.live topic = []) ∧ ∀ topic, bus.held topic = none := by
  have hsound := Sound.create h
  rw [Bus.create] at h
  rcases hcheck : checkCapacity capacity with e | _ <;> rw [hcheck] at h <;> cases h
  refine ⟨⟨hsound, fun _ _ _ hlookup => ?_, fun _ hw => ?_, List.nodup_nil⟩, rfl, fun _ => rfl,
    fun _ => rfl⟩
  · cases hlookup
  · cases hw

end Serving

section Account

variable [BEq τ]

/-- A receiver that has just subscribed to a topic, whose channel holds so many events, gets an
account of the requests that follow. -/
structure Accounted (bus : Bus τ ε) (topic : τ) (id buffer : Nat) (later : List (Request τ ε)) :
    Prop where
  /-- What the receiver has been told and what is left make up what it has heard. -/
  partition : ∃ read, Accounts (bus.reports id later) read ∧
    heard topic later = read ++ (bus.after later).unread id
  /-- A loss is told just when more is left than the channel holds, and by how many it is more. -/
  reported : ((bus.after later).receive id).1 =
    let unread := (bus.after later).unread id
    if buffer < unread.length then .lagged (unread.length - buffer)
    else unread.head?.elim (if later.any (·.isShutdown) then .closed else .empty) .event
  /-- The next event is the first of those that are not lost. -/
  led : ((bus.after later).receiveEvent id).1 =
    let unread := (bus.after later).unread id
    (unread.drop (unread.length - buffer)).head?.elim
      (if later.any (·.isShutdown) then .closed else .empty) .event
  /-- It is what would have been told, but for the loss. -/
  quiet : ((bus.after later).told id (.receiveEvent id)).filter (!·.isLoss) =
    [((bus.after later).receiveEvent id).1]

variable [LawfulBEq τ]

theorem Tuned.accounted {bus : Bus τ ε} {topic : τ} {id buffer : Nat} {later : List (Request τ ε)}
    (h : bus.Tuned topic id ⟨buffer, [], true⟩) (hkept : .drop id ∉ later) :
    Accounted bus topic id buffer later := by
  obtain ⟨read, m, haccounts, htuned, hread, rfl, hopen⟩ := h.after hkept
  have hsilence : (if later.any (·.isShutdown) then .closed else .empty) = m.silence := by
    rw [Mailbox.silence, hopen]
    cases later.any (·.isShutdown) <;> rfl
  obtain ⟨hnext, hloss⟩ := htuned.receiveEvent
  refine ⟨⟨read, haccounts, ?_⟩, ?_, ?_, ?_⟩
  · rw [htuned.unread_eq, ← hread]
    rfl
  · rw [htuned.receive.1, htuned.unread_eq, hsilence, m.fst_read]
    split
    · rename_i hlag
      exact (if_pos hlag).symm
    · rename_i hfits
      exact (Mailbox.next_of_fits hfits).trans (if_neg hfits).symm
  · rw [hnext, htuned.unread_eq, hsilence]
    rfl
  · rw [hnext]
    have hplain : m.next.isLoss = false := by
      rcases hm : m.next with e | n | _ | _
      · rfl
      · exact absurd hm (m.next_ne_lagged n)
      · rfl
      · rfl
    have hlost : (Received.lagged m.overdue : Received ε).isLoss = true := rfl
    split at hloss <;> simp [hloss.1, hlost, hplain]

/-- Whatever has been asked of a bus, a publication answers how many listen to the topic, and each
receiver that subscribes to a topic and is not dropped gets an account of what follows. Its channel
holds as many events as the first asked for who subscribed or published there since the last
shutdown, rounded up to a power of two. -/
theorem bus_accounts {capacity : Nat} {bus : Bus τ ε} (hcreate : Bus.create capacity = .ok bus)
    (requests : List (Request τ ε)) :
    (∀ topic e, ((bus.after requests).publish topic e).1
      = (bus.subscribers topic [] requests).length) ∧
    ∀ topic asked id bus' later, (bus.after requests).subscribe topic asked = .ok (id, bus') →
      .drop id ∉ later →
      ∃ first, opening capacity topic (requests ++ [.subscribe topic asked]) = some first ∧
        Accounted bus' topic id (powerOfTwoAbove first) later := by
  obtain ⟨hnew, rfl, hlive, hheld⟩ := Wired.create hcreate
  refine ⟨fun topic e => ?_, fun topic asked id bus' later hs hkept => ?_⟩
  · obtain ⟨hwired, hlive', -⟩ := hnew.after requests
    rw [(hwired.publish topic e).1, hlive', hlive]
  · have hserved : bus.after (requests ++ [.subscribe topic asked]) = bus' := by
      rw [after_append, after, after, serve, hs]
    obtain ⟨hwired, -⟩ := hnew.after requests
    obtain ⟨-, -, hheld'⟩ := hnew.after (requests ++ [.subscribe topic asked])
    obtain ⟨buffer, hbuffer, htuned⟩ := hwired.tuned_subscribe hs
    have hfirst := hheld' topic none (hheld topic)
    rw [hserved, hbuffer] at hfirst
    obtain ⟨first, hopening, rfl⟩ := Option.map_eq_some_iff.1 hfirst.symm
    exact ⟨first, hopening, htuned.accounted hkept⟩

end Account

/-- Five events on a topic whose channel holds two, and one on another, before anything is read. -/
def flood : List (Request Bool Nat) :=
  [.publish true 0, .publish true 1, .publish true 2, .publish true 3, .publish true 4,
    .publish false 9, .receive 0, .receive 0]

/-- Three are lost, one is read and one is left. -/
theorem flood_accounted :
    let bus : Bus Bool Nat := (idle 2).after [.subscribe true none]
    Bus.create 2 = .ok (idle 2 : Bus Bool Nat) ∧
    (idle 2 : Bus Bool Nat).subscribe true none = .ok (0, bus) ∧
    .drop 0 ∉ flood ∧
    ((bus.after flood).publish true 5).1 = 1 ∧
    (∃ read, Accounts [.lagged 3, .event 3] read ∧ [0, 1, 2, 3, 4] = read ++ [4]) ∧
    ((bus.after flood).receive 0).1 = .event 4 := by
  intro bus
  have hcreate : Bus.create 2 = .ok (idle 2 : Bus Bool Nat) := rfl
  have hkept : .drop 0 ∉ flood := by simp [flood]
  have hlisted : (idle 2 : Bus Bool Nat).subscribers true [] (.subscribe true none :: flood) = [0] := by
    decide +kernel
  have htold : bus.reports 0 flood = [.lagged 3, .event 3] := by decide +kernel
  have hleft : (bus.after flood).unread 0 = [4] := by decide +kernel
  have hsubscribed : (idle 2 : Bus Bool Nat).subscribe true none = .ok (0, bus) := rfl
  have hpublished := (bus_accounts hcreate ([.subscribe true none] ++ flood)).1 true 5
  rw [after_append, List.singleton_append, hlisted] at hpublished
  obtain ⟨first, hfirst, haccount⟩ :=
    (bus_accounts hcreate []).2 true none 0 bus flood hsubscribed hkept
  obtain rfl : 2 = first := Option.some.inj hfirst
  have hbuffer : powerOfTwoAbove 2 = 2 := by decide +kernel
  rw [hbuffer] at haccount
  have hpartition := haccount.partition
  have hreported := haccount.reported
  rw [htold, hleft] at hpartition
  rw [hleft] at hreported
  exact ⟨hcreate, hsubscribed, hkept, hpublished, hpartition, hreported⟩

end Bus

end Registrar
