import Registrar.Bus
import Registrar.Proofs.Lookup

/-!
# Receivers of a bus

What a receiver has to read lies in its channel, behind its place. Whatever others do with the bus
only adds to the end of the channel (`Grows`), and what is published while the receiver listens is
added there (`pending_publish`). So what a receiver has to read stays, until it is read or lies
so far back that the receiver is told that it lost something (`Pending.of_read`).
-/

namespace Registrar

namespace Bus

variable {τ ε : Type} {bus bus' : Bus τ ε} {topic : τ} {id : Nat} {p : ε → Prop}

/-- The place of a receiver, and its channel. -/
def place? (bus : Bus τ ε) (id : Nat) : Option (Receiver × Channel ε) :=
  (bus.receivers.lookup id).bind fun r => bus.channels[r.channel]?.map (r, ·)

theorem place?_eq_some_iff {r : Receiver} {c : Channel ε} : bus.place? id = some (r, c) ↔
    bus.receivers.lookup id = some r ∧ bus.channels[r.channel]? = some c := by
  simp only [place?, Option.bind_eq_some_iff, Option.map_eq_some_iff, Prod.mk.injEq]
  constructor
  · rintro ⟨r, hr, c, hc, rfl, rfl⟩
    exact ⟨hr, hc⟩
  · rintro ⟨hr, hc⟩
    exact ⟨r, hr, c, hc, rfl, rfl⟩

/-- A channel to which events have been added at the end. -/
def Channel.Extends (c c' : Channel ε) : Prop :=
  ∃ later : Array ε, c' = { c with sent := c.sent ++ later }

/-- The receiver has still to read an event of which `p` holds, or has lost some and has not been
told yet. -/
def Pending (bus : Bus τ ε) (id : Nat) (p : ε → Prop) : Prop :=
  ∃ r c, bus.place? id = some (r, c) ∧
    (r.next + c.capacity < c.sent.size ∨ ∃ i e, r.next ≤ i ∧ c.sent[i]? = some e ∧ p e)

/-- What a bus has for a receiver is kept, and perhaps more has come. -/
structure Grows [BEq τ] (id : Nat) (bus bus' : Bus τ ε) : Prop where
  topics : ∀ topic channel, bus.topics.lookup topic = some channel →
    bus'.topics.lookup topic = some channel
  place : ∀ r c, bus.place? id = some (r, c) →
    ∃ c', bus'.place? id = some (r, c') ∧ c.Extends c'

theorem Channel.Extends.refl (c : Channel ε) : c.Extends c :=
  ⟨#[], by simp⟩

theorem Channel.Extends.trans {c c' c'' : Channel ε} (h : c.Extends c') (h' : c'.Extends c'') :
    c.Extends c'' := by
  obtain ⟨later, rfl⟩ := h
  obtain ⟨later', rfl⟩ := h'
  exact ⟨later ++ later', by simp⟩

/-- A receiver keeps its place, and its channel is extended. -/
theorem place_of_channels {r : Receiver} {c : Channel ε}
    (hreceivers : bus'.receivers.lookup id = bus.receivers.lookup id)
    (hchannels : ∀ (i : Nat) (c : Channel ε), bus.channels[i]? = some c →
      ∃ c', bus'.channels[i]? = some c' ∧ c.Extends c')
    (h : bus.place? id = some (r, c)) : ∃ c', bus'.place? id = some (r, c') ∧ c.Extends c' := by
  obtain ⟨hr, hc⟩ := place?_eq_some_iff.1 h
  obtain ⟨c', hc', hext⟩ := hchannels _ _ hc
  exact ⟨c', place?_eq_some_iff.2 ⟨hreceivers.trans hr, hc'⟩, hext⟩

namespace Grows

variable [BEq τ]

theorem refl (id : Nat) (bus : Bus τ ε) : Grows id bus bus :=
  ⟨fun _ _ h => h, fun _ c h => ⟨c, h, .refl c⟩⟩

theorem trans {bus'' : Bus τ ε} (h : Grows id bus bus') (h' : Grows id bus' bus'') :
    Grows id bus bus'' where
  topics topic channel ht := h'.topics topic channel (h.topics topic channel ht)
  place r c hplace := by
    obtain ⟨c', hplace', hext⟩ := h.place r c hplace
    obtain ⟨c'', hplace'', hext'⟩ := h'.place r c' hplace'
    exact ⟨c'', hplace'', hext.trans hext'⟩

theorem pending (h : Grows id bus bus') (hp : bus.Pending id p) : bus'.Pending id p := by
  obtain ⟨r, c, hplace, hpending⟩ := hp
  obtain ⟨c', hplace', later, rfl⟩ := h.place r c hplace
  refine ⟨r, _, hplace', hpending.imp (fun hlag => ?_) ?_⟩
  · simp only [Array.size_append]
    omega
  · rintro ⟨i, e, hi, he, hpe⟩
    refine ⟨i, e, hi, ?_, hpe⟩
    have hlt := (Array.getElem?_eq_some_iff.1 he).1
    simp only
    rw [Array.getElem?_append_left hlt, he]

end Grows

section Others

variable [BEq τ] [LawfulBEq τ]

theorem grows_channelOf (id : Nat) (bus : Bus τ ε) (topic : τ) (capacity : Nat) :
    Grows id bus (bus.channelOf topic capacity).2 := by
  rw [channelOf]
  split
  · exact .refl id bus
  · rename_i hnone
    refine ⟨fun topic' channel hchannel => ?_, fun r c => place_of_channels rfl fun i c hc => ?_⟩
    · rw [List.lookup_cons]
      split
      · rename_i heq
        rw [eq_of_beq heq, hnone] at hchannel
        cases hchannel
      · exact hchannel
    · obtain ⟨hlt, rfl⟩ := Array.getElem?_eq_some_iff.1 hc
      exact ⟨_, Array.getElem?_push_lt hlt, .refl _⟩

omit [LawfulBEq τ] in
theorem grows_send (id : Nat) (bus : Bus τ ε) (channel : Nat) (e : ε) :
    Grows id bus { bus with channels := bus.channels.modify channel (Channel.send e) } := by
  refine ⟨fun _ _ h => h, fun r c => place_of_channels rfl fun i c hc => ?_⟩
  dsimp only
  rw [Array.getElem?_modify, hc]
  split
  · exact ⟨_, rfl, #[e], by simp [Channel.send]⟩
  · exact ⟨c, rfl, .refl c⟩

theorem grows_publish (id : Nat) (bus : Bus τ ε) (topic : τ) (e : ε) :
    Grows id bus (bus.publish topic e).2 := by
  refine (grows_channelOf id bus topic bus.capacity).trans ?_
  rw [publish]
  dsimp only
  split
  · exact .refl id _
  · exact grows_send id _ _ e

/-- The bus with another receiver, at the end of a channel. -/
def enroll (bus : Bus τ ε) (channel : Nat) : Bus τ ε :=
  { bus with
    receivers := bus.receivers ++
      [(bus.issued, ⟨channel, bus.channels[channel]?.elim 0 (·.sent.size)⟩)]
    issued := bus.issued + 1 }

omit [LawfulBEq τ] in
theorem issued_channelOf (bus : Bus τ ε) (topic : τ) (capacity : Nat) :
    (bus.channelOf topic capacity).2.issued = bus.issued := by
  rw [channelOf]
  split <;> rfl

theorem lookup_channelOf (bus : Bus τ ε) (topic : τ) (capacity : Nat) :
    (bus.channelOf topic capacity).2.topics.lookup topic
      = some (bus.channelOf topic capacity).1 := by
  rw [channelOf]
  split
  · rename_i hsome
    exact hsome
  · simp

omit [LawfulBEq τ] in
theorem receivers_channelOf (bus : Bus τ ε) (topic : τ) (capacity : Nat) :
    (bus.channelOf topic capacity).2.receivers = bus.receivers := by
  rw [channelOf]
  split <;> rfl

omit [LawfulBEq τ] in
theorem subscribe_eq (bus : Bus τ ε) (topic : τ) (capacity : Option Nat)
    (h : capacity.getD bus.capacity ≠ 0) : bus.subscribe topic capacity
      = .ok (bus.issued, (bus.channelOf topic (capacity.getD bus.capacity)).2.enroll
        (bus.channelOf topic (capacity.getD bus.capacity)).1) := by
  rw [← issued_channelOf bus topic (capacity.getD bus.capacity), subscribe, checkCapacity, if_neg h]
  rfl

omit [LawfulBEq τ] in
theorem subscribe_eq_ok {capacity : Option Nat} {receiver : Nat}
    (h : bus.subscribe topic capacity = .ok (receiver, bus')) : receiver = bus.issued ∧
      bus' = (bus.channelOf topic (capacity.getD bus.capacity)).2.enroll
        (bus.channelOf topic (capacity.getD bus.capacity)).1 := by
  by_cases hzero : capacity.getD bus.capacity = 0
  · rw [subscribe, checkCapacity, if_pos hzero] at h
    cases h
  · rw [subscribe_eq bus topic capacity hzero] at h
    cases h
    exact ⟨rfl, rfl⟩

omit [LawfulBEq τ] in
theorem grows_enroll (hr : ∃ r, bus.receivers.lookup id = some r) (channel : Nat) :
    Grows id bus (bus.enroll channel) := by
  obtain ⟨r, hr⟩ := hr
  refine ⟨fun _ _ h => h, fun r c => place_of_channels ?_ fun i c hc => ⟨c, hc, .refl c⟩⟩
  simp [enroll, List.lookup_append, hr]

theorem grows_subscribe {capacity : Option Nat} {receiver : Nat}
    (hr : ∃ r, bus.receivers.lookup id = some r)
    (h : bus.subscribe topic capacity = .ok (receiver, bus')) : Grows id bus bus' := by
  obtain ⟨-, rfl⟩ := subscribe_eq_ok h
  exact (grows_channelOf id bus topic _).trans (grows_enroll (by rwa [receivers_channelOf]) _)

omit [LawfulBEq τ] in
theorem grows_receive {other : Nat} (hne : id ≠ other) : Grows id bus (bus.receive other).2 := by
  rw [receive]
  split
  · exact .refl id bus
  · split
    · exact .refl id bus
    · refine ⟨fun _ _ h => h, fun r c => place_of_channels ?_ fun i c hc => ⟨c, hc, .refl c⟩⟩
      dsimp only
      rw [lookup_replace, beq_false_of_ne hne]
      simp

omit [LawfulBEq τ] in
theorem grows_drop {other : Nat} (hne : id ≠ other) : Grows id bus (bus.drop other) :=
  ⟨fun _ _ h => h, fun _ _ => place_of_channels (lookup_filter_of_ne hne _)
    fun _ c hc => ⟨c, hc, .refl c⟩⟩

end Others

section Listening

variable [BEq τ]

/-- A receiver is in use on the open channel of a topic. -/
def Listens (bus : Bus τ ε) (topic : τ) (id : Nat) : Prop :=
  ∃ r c, bus.place? id = some (r, c) ∧ bus.topics.lookup topic = some r.channel ∧
    c.isOpen = true ∧ r.next ≤ c.sent.size

theorem Grows.listens (h : Grows id bus bus') (hl : bus.Listens topic id) :
    bus'.Listens topic id := by
  obtain ⟨r, c, hplace, htopic, hopen, hnext⟩ := hl
  obtain ⟨c', hplace', later, rfl⟩ := h.place r c hplace
  exact ⟨r, _, hplace', h.topics topic _ htopic, hopen, by simp only [Array.size_append]; omega⟩

omit [BEq τ] in
theorem listeners_ne_zero {r : Receiver} {c : Channel ε} (h : bus.place? id = some (r, c)) :
    bus.listeners r.channel ≠ 0 := by
  obtain ⟨hr, -⟩ := place?_eq_some_iff.1 h
  exact Nat.pos_iff_ne_zero.1 (List.countP_pos_iff.2 ⟨_, mem_of_lookup hr, beq_self_eq_true _⟩)

theorem Listens.lookup (h : bus.Listens topic id) : ∃ r, bus.receivers.lookup id = some r := by
  obtain ⟨r, c, hplace, -⟩ := h
  exact ⟨r, (place?_eq_some_iff.1 hplace).1⟩

/-- What is published while a receiver listens is for it to read. -/
theorem pending_publish (h : bus.Listens topic id) {e : ε} (hp : p e) :
    (bus.publish topic e).2.Pending id p := by
  obtain ⟨r, c, hplace, htopic, -, hnext⟩ := h
  obtain ⟨hr, hc⟩ := place?_eq_some_iff.1 hplace
  have hlisteners := listeners_ne_zero hplace
  rw [publish, channelOf, htopic]
  dsimp only
  split
  · rename_i hzero
    exact absurd hzero hlisteners
  · refine ⟨r, c.send e, place?_eq_some_iff.2 ⟨hr, ?_⟩, .inr ⟨c.sent.size, e, hnext, ?_, hp⟩⟩
    · dsimp only
      rw [Array.getElem?_modify, if_pos rfl, hc]
      rfl
    · simp [Channel.send]

@[simp] theorem Receiver.channel_read (r : Receiver) (c : Channel ε) :
    (r.read c).2.channel = r.channel := by
  rw [Receiver.read]
  split
  · rfl
  · split <;> rfl

/-- A place never gets past the end of its channel. -/
theorem Receiver.next_read_le {r : Receiver} {c : Channel ε} (h : r.next ≤ c.sent.size) :
    (r.read c).2.next ≤ c.sent.size := by
  rw [Receiver.read]
  split
  · exact Nat.sub_le _ _
  · split
    · rename_i he
      exact (Array.getElem?_eq_some_iff.1 he).1
    · exact h

omit [BEq τ] in
theorem receive_eq {r : Receiver} {c : Channel ε} (h : bus.place? id = some (r, c)) :
    (bus.receive id).1 = (r.read c).1 ∧ (bus.receive id).2.topics = bus.topics ∧
      (bus.receive id).2.place? id = some ((r.read c).2, c) := by
  obtain ⟨hr, hc⟩ := place?_eq_some_iff.1 h
  rw [receive, hr]
  dsimp only
  rw [hc]
  refine ⟨rfl, rfl, place?_eq_some_iff.2 ⟨?_, ?_⟩⟩
  · dsimp only
    rw [lookup_replace, hr]
    simp
  · rw [Receiver.channel_read]
    exact hc

/-- A receiver that reads stays on its channel. -/
theorem Listens.receive (h : bus.Listens topic id) : (bus.receive id).2.Listens topic id := by
  obtain ⟨r, c, hplace, htopic, hopen, hnext⟩ := h
  obtain ⟨-, htopics, hplace'⟩ := receive_eq hplace
  exact ⟨_, c, hplace', by rw [htopics, htopic, Receiver.channel_read], hopen,
    Receiver.next_read_le hnext⟩

theorem Listens.not_closed (h : bus.Listens topic id) : (bus.receive id).1 ≠ .closed := by
  obtain ⟨r, c, hplace, -, hopen, -⟩ := h
  rw [(receive_eq hplace).1, Receiver.read, hopen]
  split
  · simp
  · split <;> simp

omit [BEq τ] in
/-- A receiver that has something to read is told of its loss, or reads the next event. Then this
was what it had to read, or it has still to. -/
theorem Pending.of_read (h : bus.Pending id p) : (∃ n, (bus.receive id).1 = .lagged n) ∨
    ∃ e, (bus.receive id).1 = .event e ∧ (p e ∨ (bus.receive id).2.Pending id p) := by
  obtain ⟨r, c, hplace, hpending⟩ := h
  obtain ⟨hread, -, hplace'⟩ := receive_eq hplace
  rw [hread]
  by_cases hlag : r.next + c.capacity < c.sent.size
  · exact .inl ⟨_, by rw [Receiver.read, if_pos hlag]⟩
  · obtain ⟨i, e, hi, he, hp⟩ := hpending.resolve_left hlag
    have hlt := (Array.getElem?_eq_some_iff.1 he).1
    have hfirst := Array.getElem?_eq_getElem (Nat.lt_of_le_of_lt hi hlt)
    have hevent : r.read c = (.event c.sent[r.next], { r with next := r.next + 1 }) := by
      rw [Receiver.read, if_neg hlag, hfirst]
    rw [hevent] at hplace' ⊢
    refine .inr ⟨_, rfl, ?_⟩
    rcases Nat.eq_or_lt_of_le hi with rfl | hi
    · obtain rfl := Option.some.inj (hfirst.symm.trans he)
      exact .inl hp
    · exact .inr ⟨_, c, hplace', .inr ⟨i, e, hi, he, hp⟩⟩

end Listening

section Sound

variable [BEq τ]

/-- All receivers were handed out by the bus, and each topic has an open channel. -/
structure Sound (bus : Bus τ ε) : Prop where
  capacity : bus.capacity ≠ 0
  receivers : ∀ id r, bus.receivers.lookup id = some r → id < bus.issued
  topics : ∀ topic channel, bus.topics.lookup topic = some channel →
    ∃ c, bus.channels[channel]? = some c ∧ c.isOpen = true

namespace Sound

theorem create {capacity : Nat} (h : create capacity = .ok bus) : bus.Sound := by
  rw [Bus.create, checkCapacity] at h
  split at h <;> cases h
  exact ⟨‹_›, nofun, nofun⟩

variable (h : bus.Sound)
include h

theorem channelOf (topic : τ) (capacity : Nat) : (bus.channelOf topic capacity).2.Sound := by
  rw [Bus.channelOf]
  split
  · exact h
  · refine ⟨h.capacity, h.receivers, fun topic' channel hchannel => ?_⟩
    rw [List.lookup_cons] at hchannel
    dsimp only
    split at hchannel
    · obtain rfl := Option.some.inj hchannel
      exact ⟨_, Array.getElem?_push_size, rfl⟩
    · obtain ⟨c, hc, hopen⟩ := h.topics topic' channel hchannel
      obtain ⟨hlt, rfl⟩ := Array.getElem?_eq_some_iff.1 hc
      exact ⟨_, Array.getElem?_push_lt hlt, hopen⟩

theorem publish (topic : τ) (e : ε) : (bus.publish topic e).2.Sound := by
  have hopened := h.channelOf topic bus.capacity
  rw [Bus.publish]
  dsimp only
  split
  · exact hopened
  · refine ⟨hopened.capacity, hopened.receivers, fun topic' channel hchannel => ?_⟩
    obtain ⟨c, hc, hopen⟩ := hopened.topics topic' channel hchannel
    dsimp only
    rw [Array.getElem?_modify, hc]
    split
    · exact ⟨_, rfl, hopen⟩
    · exact ⟨c, rfl, hopen⟩

theorem enroll (channel : Nat) : (bus.enroll channel).Sound := by
  refine ⟨h.capacity, fun id r hr => ?_, h.topics⟩
  rw [Bus.enroll, List.lookup_append] at hr
  rcases hold : bus.receivers.lookup id with _ | r'
  · simp only [hold, Option.none_or, List.lookup_cons] at hr
    split at hr
    · rename_i heq
      rw [eq_of_beq heq]
      exact Nat.lt_succ_self _
    · cases hr
  · exact Nat.lt_succ_of_lt (h.receivers id r' hold)

/-- A new receiver listens. -/
theorem subscribe [LawfulBEq τ] {capacity : Option Nat} {receiver : Nat}
    (hs : bus.subscribe topic capacity = .ok (receiver, bus')) :
    bus'.Sound ∧ bus'.Listens topic receiver := by
  obtain ⟨rfl, rfl⟩ := subscribe_eq_ok hs
  have hopened := h.channelOf topic (capacity.getD bus.capacity)
  refine ⟨hopened.enroll _, ?_⟩
  have htopic := lookup_channelOf bus topic (capacity.getD bus.capacity)
  rw [← issued_channelOf bus topic (capacity.getD bus.capacity)]
  generalize bus.channelOf topic (capacity.getD bus.capacity) = opened at hopened htopic ⊢
  obtain ⟨channel, opened⟩ := opened
  obtain ⟨c, hc, hopen⟩ := hopened.topics topic channel htopic
  have hnew : opened.receivers.lookup opened.issued = none := by
    rcases hold : opened.receivers.lookup opened.issued with _ | r
    · rfl
    · exact absurd (hopened.receivers _ r hold) (Nat.lt_irrefl _)
  refine ⟨⟨channel, c.sent.size⟩, c, place?_eq_some_iff.2 ⟨?_, hc⟩, htopic, hopen, Nat.le_refl _⟩
  simp [Bus.enroll, List.lookup_append, hnew, hc]

theorem receive (id : Nat) : (bus.receive id).2.Sound := by
  rw [Bus.receive]
  split
  · exact h
  · split
    · exact h
    · refine ⟨h.capacity, fun id' r hr => ?_, h.topics⟩
      dsimp only at hr
      rw [lookup_replace, Option.map_eq_some_iff] at hr
      obtain ⟨r', hr', -⟩ := hr
      exact h.receivers id' r' hr'

theorem drop (id : Nat) : (bus.drop id).Sound := by
  refine ⟨h.capacity, fun id' r hr => ?_, h.topics⟩
  have hne : id' ≠ id := by simpa using (List.mem_filter.1 (mem_of_lookup hr)).2
  exact h.receivers id' r ((lookup_filter_of_ne hne _).symm.trans hr)

end Sound

end Sound

end Bus

end Registrar
