import Registrar.Proofs.Bus.Receivers

/-!
# Mailboxes of a bus

What a receiver has to read is a list of events, the oldest first, of which its channel holds so many.
Each thing that others do with the bus leaves the list as it is or puts an event behind it (`Tuned`).
What the receiver is told accounts for the events that the list loses at its head (`accounts_read`).
-/

namespace Registrar

namespace Bus

variable {τ ε : Type}

/-- Reports account for a list of events when each event stands for itself and each loss for as many
events as it tells. -/
inductive Accounts : List (Received ε) → List ε → Prop
  | nil : Accounts [] []
  | event (e : ε) {reports : List (Received ε)} {events : List ε} (h : Accounts reports events) :
      Accounts (.event e :: reports) (e :: events)
  | lagged (lost : List ε) {reports : List (Received ε)} {events : List ε}
      (h : Accounts reports events) : Accounts (.lagged lost.length :: reports) (lost ++ events)
  | empty {reports : List (Received ε)} {events : List ε} (h : Accounts reports events) :
      Accounts (.empty :: reports) events
  | closed {reports : List (Received ε)} {events : List ε} (h : Accounts reports events) :
      Accounts (.closed :: reports) events

theorem Accounts.append {reports reports' : List (Received ε)} {events events' : List ε}
    (h : Accounts reports events) (h' : Accounts reports' events') :
    Accounts (reports ++ reports') (events ++ events') := by
  induction h with
  | nil => exact h'
  | event e _ ih => exact .event e ih
  | lagged lost _ ih =>
    rw [List.append_assoc]
    exact .lagged lost ih
  | empty _ ih => exact .empty ih
  | closed _ ih => exact .closed ih

/-- What a receiver has still to read of a channel. -/
structure Mailbox (ε : Type) where
  /-- How many events the channel holds. -/
  capacity : Nat
  unread : List ε
  isOpen : Bool

namespace Mailbox

variable {m : Mailbox ε}

/-- How many events are lost and not told yet. -/
def overdue (m : Mailbox ε) : Nat :=
  m.unread.length - m.capacity

/-- What is told when nothing is left. -/
def silence (m : Mailbox ε) : Received ε :=
  if m.isOpen then .empty else .closed

/-- The first event that is not lost, or that there is none. -/
def next (m : Mailbox ε) : Received ε :=
  (m.unread.drop m.overdue).head?.elim m.silence .event

def read (m : Mailbox ε) : Received ε × Mailbox ε :=
  if m.capacity < m.unread.length then
    (.lagged m.overdue, { m with unread := m.unread.drop m.overdue })
  else (m.unread.head?.elim m.silence .event, { m with unread := m.unread.tail })

@[simp] theorem capacity_read (m : Mailbox ε) : m.read.2.capacity = m.capacity := by
  rw [Mailbox.read]
  split <;> rfl

@[simp] theorem isOpen_read (m : Mailbox ε) : m.read.2.isOpen = m.isOpen := by
  rw [Mailbox.read]
  split <;> rfl

theorem next_ne_lagged (m : Mailbox ε) (n : Nat) : m.next ≠ .lagged n := by
  rw [next]
  rcases (m.unread.drop m.overdue).head? with _ | e
  · rw [Option.elim_none, silence]
    split <;> simp
  · simp

theorem next_of_fits (h : ¬m.capacity < m.unread.length) :
    m.next = m.unread.head?.elim m.silence .event := by
  have hfits : m.overdue = 0 := by
    rw [overdue]
    omega
  rw [next, hfits]
  rfl

theorem fst_read (m : Mailbox ε) : m.read.1 =
    if m.capacity < m.unread.length then .lagged m.overdue else m.next := by
  rw [Mailbox.read]
  split
  · rfl
  · rename_i hfits
    rw [next_of_fits hfits]

/-- After a loss is told, no other is. -/
theorem fst_read_of_loss (h : m.capacity < m.unread.length) : m.read.2.read.1 = m.next := by
  have hread : m.read.2 = { m with unread := m.unread.drop m.overdue } := by
    rw [Mailbox.read, if_pos h]
  have hfits : ¬m.capacity < (m.unread.drop m.overdue).length := by
    rw [List.length_drop, overdue]
    omega
  rw [hread, Mailbox.read, if_neg hfits]
  rfl

/-- What is read is what was unread first. -/
theorem accounts_read (m : Mailbox ε) :
    ∃ read, Accounts [m.read.1] read ∧ m.unread = read ++ m.read.2.unread := by
  rw [Mailbox.read]
  split
  · refine ⟨m.unread.take m.overdue, ?_, (List.take_append_drop _ _).symm⟩
    have hlength : (m.unread.take m.overdue).length = m.overdue := by
      rw [List.length_take, overdue]
      omega
    have h := Accounts.lagged (m.unread.take m.overdue) .nil
    rwa [hlength, List.append_nil] at h
  · rcases m.unread with _ | ⟨e, rest⟩
    · rw [List.head?_nil, Option.elim_none, silence]
      split
      · exact ⟨[], .empty .nil, rfl⟩
      · exact ⟨[], .closed .nil, rfl⟩
    · exact ⟨[e], .event e .nil, rfl⟩

end Mailbox

def Receiver.mailbox (r : Receiver) (c : Channel ε) : Mailbox ε :=
  ⟨c.capacity, c.sent.toList.drop r.next, c.isOpen⟩

/-- A place in a channel is read as what lies behind it. -/
theorem Receiver.read_eq {r : Receiver} {c : Channel ε} (h : r.next ≤ c.sent.size) :
    (r.read c).1 = (r.mailbox c).read.1 ∧ (r.read c).2.mailbox c = (r.mailbox c).read.2 := by
  have hlength : (r.mailbox c).unread.length = c.sent.size - r.next := by
    simp [Receiver.mailbox]
  have hhead : (r.mailbox c).unread.head? = c.sent[r.next]? := by
    simp [Receiver.mailbox]
  have hcapacity : (r.mailbox c).capacity = c.capacity := rfl
  rw [Receiver.read, Mailbox.read, hlength, hhead]
  by_cases hlag : r.next + c.capacity < c.sent.size
  · have hoverdue : (r.mailbox c).overdue = c.sent.size - c.capacity - r.next := by
      rw [Mailbox.overdue, hlength, hcapacity]
      omega
    have hlag' : (r.mailbox c).capacity < c.sent.size - r.next := by
      rw [hcapacity]
      omega
    rw [if_pos hlag, if_pos hlag', hoverdue]
    refine ⟨rfl, ?_⟩
    simp only [Receiver.mailbox, List.drop_drop]
    rw [show r.next + (c.sent.size - c.capacity - r.next) = c.sent.size - c.capacity by omega]
  · have hlag' : ¬(r.mailbox c).capacity < c.sent.size - r.next := by
      rw [hcapacity]
      omega
    rw [if_neg hlag, if_neg hlag']
    rcases hnext : c.sent[r.next]? with _ | e
    · refine ⟨rfl, ?_⟩
      have hend : c.sent.toList.drop r.next = [] := by
        simpa using hnext
      simp [Receiver.mailbox, hend]
    · exact ⟨rfl, by simp [Receiver.mailbox]⟩

/-- A receiver is in use on a channel, which is that of a topic as long as it is open, and has so
much to read. -/
def Tuned [BEq τ] (bus : Bus τ ε) (topic : τ) (id : Nat) (m : Mailbox ε) : Prop :=
  ∃ r c, bus.place? id = some (r, c) ∧ r.next ≤ c.sent.size ∧ r.mailbox c = m ∧
    ∀ t, bus.topics.lookup t = some r.channel ↔ t = topic ∧ c.isOpen = true

/-- What a receiver has still to read. -/
def unread (bus : Bus τ ε) (id : Nat) : List ε :=
  (bus.place? id).elim [] fun (r, c) => (r.mailbox c).unread

namespace Tuned

variable [BEq τ] {bus : Bus τ ε} {topic : τ} {id : Nat} {m : Mailbox ε}

theorem unread_eq (h : bus.Tuned topic id m) : bus.unread id = m.unread := by
  obtain ⟨r, c, hplace, -, rfl, -⟩ := h
  rw [unread, hplace]
  rfl

/-- A receiver reads what it has to read. -/
theorem receive (h : bus.Tuned topic id m) :
    (bus.receive id).1 = m.read.1 ∧ (bus.receive id).2.Tuned topic id m.read.2 := by
  obtain ⟨r, c, hplace, hnext, rfl, htopics⟩ := h
  obtain ⟨hread, htopics', hplace'⟩ := receive_eq hplace
  obtain ⟨hreport, hmailbox⟩ := Receiver.read_eq hnext
  refine ⟨hread.trans hreport, _, c, hplace', Receiver.next_read_le hnext, hmailbox, fun t => ?_⟩
  rw [htopics', Receiver.channel_read]
  exact htopics t

/-- Nothing changes for a receiver whose place and channel stay. -/
theorem of_place {bus' : Bus τ ε} (h : bus.Tuned topic id m)
    (hplace : ∀ p, bus.place? id = some p → bus'.place? id = some p)
    (htopics : ∀ r c, bus.place? id = some (r, c) → ∀ t,
      bus'.topics.lookup t = some r.channel ↔ bus.topics.lookup t = some r.channel) :
    bus'.Tuned topic id m := by
  obtain ⟨r, c, hp, hnext, hm, ht⟩ := h
  exact ⟨r, c, hplace _ hp, hnext, hm, fun t => (htopics r c hp t).trans (ht t)⟩

theorem receive_other {other : Nat} (h : bus.Tuned topic id m) (hne : id ≠ other) :
    (bus.receive other).2.Tuned topic id m := by
  rw [Bus.receive]
  split
  · exact h
  · split
    · exact h
    · refine h.of_place (fun p hp => ?_) fun _ _ _ _ => .rfl
      rw [place?] at hp ⊢
      dsimp only
      rw [lookup_replace, beq_false_of_ne hne]
      simpa using hp

theorem drop_other {other : Nat} (h : bus.Tuned topic id m) (hne : id ≠ other) :
    (bus.drop other).Tuned topic id m :=
  h.of_place (fun p hp => by rwa [place?, Bus.drop, lookup_filter_of_ne hne]) fun _ _ _ _ => .rfl

theorem shutdown (h : bus.Tuned topic id m) :
    bus.shutdown.2.Tuned topic id { m with isOpen := false } := by
  obtain ⟨r, c, hplace, hnext, rfl, -⟩ := h
  obtain ⟨hr, hc⟩ := place?_eq_some_iff.1 hplace
  refine ⟨r, { c with isOpen := false }, place?_eq_some_iff.2 ⟨hr, ?_⟩, hnext, rfl, by
    simp [Bus.shutdown]⟩
  rw [Bus.shutdown, Array.getElem?_map, hc]
  rfl

/-- A channel that is opened for another is none that a receiver reads. -/
theorem channelOf [LawfulBEq τ] (h : bus.Tuned topic id m) (t : τ) (capacity : Nat) :
    (bus.channelOf t capacity).2.Tuned topic id m := by
  rw [Bus.channelOf]
  split
  · exact h
  · rename_i hnone
    refine h.of_place (fun p hp => ?_) fun r c hp t' => ?_
    · obtain ⟨hr, hc⟩ := place?_eq_some_iff.1 hp
      obtain ⟨hlt, hc⟩ := Array.getElem?_eq_some_iff.1 hc
      exact place?_eq_some_iff.2 ⟨hr, (Array.getElem?_push_lt hlt).trans (congrArg some hc)⟩
    · have hlt := (Array.getElem?_eq_some_iff.1 (place?_eq_some_iff.1 hp).2).1
      rw [List.lookup_cons]
      split
      · rename_i heq
        rw [eq_of_beq heq, hnone]
        simp only [Option.some.injEq, reduceCtorEq, iff_false]
        omega
      · exact .rfl

theorem enroll (h : bus.Tuned topic id m) (channel : Nat) : (bus.enroll channel).Tuned topic id m := by
  refine h.of_place (fun p hp => ?_) fun _ _ _ _ => .rfl
  obtain ⟨hr, hc⟩ := place?_eq_some_iff.1 hp
  exact place?_eq_some_iff.2 ⟨by simp [Bus.enroll, List.lookup_append, hr], hc⟩

/-- An event that is published on the topic of a receiver is put behind what it has to read. -/
theorem publish [LawfulBEq τ] (h : bus.Tuned topic id m) (t : τ) (e : ε) :
    (bus.publish t e).2.Tuned topic id
      { m with unread := m.unread ++ if m.isOpen && t == topic then [e] else [] } := by
  obtain ⟨r, c, hplace, hnext, rfl, htopics⟩ := h.channelOf t bus.capacity
  have hopened := lookup_channelOf bus t bus.capacity
  rw [Bus.publish]
  generalize bus.channelOf t bus.capacity = opened at hplace htopics hopened ⊢
  obtain ⟨channel, opened⟩ := opened
  dsimp only at hplace htopics hopened ⊢
  obtain ⟨hr, hc⟩ := place?_eq_some_iff.1 hplace
  by_cases hchannel : channel = r.channel
  · obtain ⟨rfl, hopen⟩ := (htopics t).1 (hchannel ▸ hopened)
    have hlisteners := listeners_ne_zero hplace
    rw [← hchannel] at hlisteners
    split
    · rename_i hzero
      exact absurd hzero hlisteners
    · refine ⟨r, c.send e, place?_eq_some_iff.2 ⟨hr, ?_⟩, ?_, ?_, htopics⟩
      · dsimp only
        rw [Array.getElem?_modify, if_pos hchannel, hc]
        rfl
      · simp only [Channel.send, Array.size_push]
        omega
      · simp [Receiver.mailbox, Channel.send, hopen, List.drop_append_of_le_length, hnext]
  · have hnews : (c.isOpen && t == topic) = false := by
      rw [Bool.eq_false_iff]
      intro hboth
      rw [Bool.and_eq_true, beq_iff_eq] at hboth
      have hsame := (htopics t).2 hboth.symm
      exact hchannel (Option.some.inj (hopened.symm.trans hsame))
    have hsame : ∀ opened' : Bus τ ε, opened'.topics = opened.topics →
        opened'.receivers = opened.receivers → opened'.channels[r.channel]? = some c →
        opened'.Tuned topic id { r.mailbox c with unread := (r.mailbox c).unread ++
          if (r.mailbox c).isOpen && t == topic then [e] else [] } := by
      intro opened' ht hreceivers hc'
      refine ⟨r, c, place?_eq_some_iff.2 ⟨hreceivers ▸ hr, hc'⟩, hnext, ?_, ht ▸ htopics⟩
      simp [Receiver.mailbox, hnews]
    split
    · exact hsame _ rfl rfl hc
    · refine hsame _ rfl rfl ?_
      dsimp only
      rw [Array.getElem?_modify, if_neg hchannel, hc]

theorem receiveEvent_other {other : Nat} (h : bus.Tuned topic id m) (hne : id ≠ other) :
    (bus.receiveEvent other).2.Tuned topic id m := by
  have htuned := h.receive_other hne
  rw [Bus.receiveEvent]
  rcases hread : bus.receive other with ⟨received, bus'⟩
  rw [hread] at htuned
  rcases received with e | n | _ | _
  · exact htuned
  · exact htuned.receive_other hne
  · exact htuned
  · exact htuned

end Tuned

end Bus

end Registrar
