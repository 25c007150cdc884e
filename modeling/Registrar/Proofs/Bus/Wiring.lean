import Registrar.Proofs.Bus.Mailboxes

/-!
# Who listens on a bus

A topic has a channel of its own from when someone first subscribes or publishes there until the bus is
shut down (`Wired`). What is asked of the bus in between changes nothing of who listens to a topic and
how many events its channel holds, but for receivers that come and are dropped.
-/

namespace Registrar

namespace Bus

variable {τ ε : Type}

section Wiring

/-- The receivers in use, each with the channel it reads. -/
def wiring (bus : Bus τ ε) : List (Nat × Nat) :=
  bus.receivers.map fun e => (e.1, e.2.channel)

variable [BEq τ]

/-- The receivers in use on the channel of a topic. -/
def live (bus : Bus τ ε) (topic : τ) : List Nat :=
  (bus.wiring.filter fun w => bus.topics.lookup topic == some w.2).map Prod.fst

/-- How many events the channel of a topic holds. -/
def held (bus : Bus τ ε) (topic : τ) : Option Nat :=
  (bus.topics.lookup topic).bind fun channel => bus.channels[channel]?.map (·.capacity)

/-- No two topics share a channel, and no two receivers in use an id. -/
structure Wired (bus : Bus τ ε) : Prop extends bus.Sound where
  apart : ∀ t t' channel, bus.topics.lookup t = some channel →
    bus.topics.lookup t' = some channel → t = t'
  placed : ∀ w ∈ bus.wiring, w.2 < bus.channels.size
  distinct : (bus.wiring.map Prod.fst).Nodup

omit [BEq τ] in
/-- Only how far the receivers have read differs, and what has been sent. -/
structure Alike (bus bus' : Bus τ ε) : Prop where
  capacity : bus'.capacity = bus.capacity
  topics : bus'.topics = bus.topics
  wiring : bus'.wiring = bus.wiring
  channels : bus'.channels.map (·.capacity) = bus.channels.map (·.capacity)

variable {bus bus' : Bus τ ε} {topic t : τ} {id : Nat}

omit [BEq τ] in
theorem map_fst_wiring (bus : Bus τ ε) :
    bus.wiring.map Prod.fst = bus.receivers.map Prod.fst := by
  rw [wiring, List.map_map]
  rfl

omit [BEq τ] in
theorem listeners_eq (bus : Bus τ ε) (channel : Nat) :
    bus.listeners channel = (bus.wiring.filter (·.2 == channel)).length := by
  rw [listeners, wiring, List.filter_map, List.length_map, List.countP_eq_length_filter]
  rfl

namespace Alike

omit [BEq τ] in
theorem refl (bus : Bus τ ε) : Alike bus bus :=
  ⟨rfl, rfl, rfl, rfl⟩

omit [BEq τ] in
theorem trans {bus'' : Bus τ ε} (h : Alike bus bus') (h' : Alike bus' bus'') : Alike bus bus'' :=
  ⟨h'.capacity.trans h.capacity, h'.topics.trans h.topics, h'.wiring.trans h.wiring,
    h'.channels.trans h.channels⟩

theorem live_eq (h : Alike bus bus') (topic : τ) : bus'.live topic = bus.live topic := by
  rw [live, live, h.wiring, h.topics]

theorem held_eq (h : Alike bus bus') (topic : τ) : bus'.held topic = bus.held topic := by
  simp only [held, ← Array.getElem?_map, h.channels, h.topics]

omit [BEq τ] in
theorem size_eq (h : Alike bus bus') : bus'.channels.size = bus.channels.size := by
  simpa using congrArg Array.size h.channels

theorem wired (h : Alike bus bus') (hw : bus.Wired) (hs : bus'.Sound) : bus'.Wired where
  toSound := hs
  apart := by
    rw [h.topics]
    exact hw.apart
  placed := by
    rw [h.wiring, h.size_eq]
    exact hw.placed
  distinct := by
    rw [h.wiring]
    exact hw.distinct

omit [BEq τ] in
theorem send (bus : Bus τ ε) (channel : Nat) (e : ε) :
    Alike bus { bus with channels := bus.channels.modify channel (Channel.send e) } := by
  refine ⟨rfl, rfl, rfl, ?_⟩
  refine Array.ext_getElem? fun i => ?_
  rw [Array.getElem?_map, Array.getElem?_map, Array.getElem?_modify]
  split
  · cases bus.channels[i]? <;> simp [Channel.send]
  · rfl

end Alike

/-- A receiver that reads stays where it is. -/
theorem Wired.alike_receive (h : bus.Wired) (id : Nat) : Alike bus (bus.receive id).2 := by
  rw [receive]
  split
  · exact .refl bus
  · rename_i r hr
    split
    · exact .refl bus
    · rename_i c hc
      refine ⟨rfl, rfl, ?_, rfl⟩
      rw [wiring, wiring, List.map_map]
      refine List.map_congr_left fun e he => ?_
      by_cases hid : e.1 = id
      · subst hid
        have hlookup := lookup_of_mem (map_fst_wiring bus ▸ h.distinct) he
        obtain rfl := Option.some.inj (hlookup.symm.trans hr)
        simp
      · simp [hid]

theorem Wired.receive (h : bus.Wired) (id : Nat) : (bus.receive id).2.Wired :=
  (h.alike_receive id).wired h (h.toSound.receive id)

theorem Wired.alike_receiveEvent (h : bus.Wired) (id : Nat) :
    Alike bus (bus.receiveEvent id).2 ∧ (bus.receiveEvent id).2.Wired := by
  have hfirst := h.alike_receive id
  have hwired := h.receive id
  rw [receiveEvent]
  rcases hread : bus.receive id with ⟨received, bus'⟩
  rw [hread] at hfirst hwired
  rcases received with e | n | _ | _
  · exact ⟨hfirst, hwired⟩
  · exact ⟨hfirst.trans (hwired.alike_receive id), hwired.receive id⟩
  · exact ⟨hfirst, hwired⟩
  · exact ⟨hfirst, hwired⟩

section Opening

/-- The bus with a new channel for a topic. -/
def opened (bus : Bus τ ε) (t : τ) (capacity : Nat) : Bus τ ε :=
  { bus with
    channels := bus.channels.push ⟨powerOfTwoAbove capacity, #[], true⟩
    topics := (t, bus.channels.size) :: bus.topics }

theorem channelOf_cases (bus : Bus τ ε) (t : τ) (capacity : Nat) :
    (∃ channel, bus.topics.lookup t = some channel ∧
      bus.channelOf t capacity = (channel, bus)) ∨
    bus.topics.lookup t = none ∧
      bus.channelOf t capacity = (bus.channels.size, bus.opened t capacity) := by
  rw [channelOf]
  rcases ht : bus.topics.lookup t with _ | channel
  · exact .inr ⟨rfl, rfl⟩
  · exact .inl ⟨channel, rfl, rfl⟩

theorem Wired.lt_size (h : bus.Wired) {channel : Nat} (ht : bus.topics.lookup t = some channel) :
    channel < bus.channels.size := by
  obtain ⟨c, hc, -⟩ := h.topics t channel ht
  exact (Array.getElem?_eq_some_iff.1 hc).1

variable [LawfulBEq τ] (h : bus.Wired) (t : τ) (capacity : Nat)
include h

theorem Wired.channelOf : (bus.channelOf t capacity).2.Wired := by
  have hsound := h.toSound.channelOf t capacity
  obtain ⟨channel, -, ho⟩ | ⟨hnone, ho⟩ := channelOf_cases bus t capacity <;> rw [ho] at hsound ⊢
  · exact h
  · refine ⟨hsound, fun t₁ t₂ channel h₁ h₂ => ?_, fun w hw => ?_, h.distinct⟩
    · rw [opened, List.lookup_cons] at h₁ h₂
      split at h₁ <;> split at h₂
      · rename_i heq₁ _ heq₂
        exact (eq_of_beq heq₁).trans (eq_of_beq heq₂).symm
      · obtain rfl := Option.some.inj h₁
        exact absurd (h.lt_size h₂) (Nat.lt_irrefl _)
      · obtain rfl := Option.some.inj h₂
        exact absurd (h.lt_size h₁) (Nat.lt_irrefl _)
      · exact h.apart t₁ t₂ channel h₁ h₂
    · have hlt : w.2 < bus.channels.size := h.placed w hw
      simp only [opened, Array.size_push]
      omega

theorem Wired.live_channelOf (topic : τ) :
    (bus.channelOf t capacity).2.live topic = bus.live topic := by
  obtain ⟨channel, -, ho⟩ | ⟨hnone, ho⟩ := channelOf_cases bus t capacity <;> rw [ho]
  have hfilter : bus.wiring.filter (fun w => (bus.opened t capacity).topics.lookup topic == some w.2)
      = bus.wiring.filter (fun w => bus.topics.lookup topic == some w.2) := by
    refine List.filter_congr fun w hw => ?_
    have hlt := h.placed w hw
    rw [opened, List.lookup_cons]
    split
    · rename_i heq
      rw [eq_of_beq heq, hnone]
      have hne : bus.channels.size ≠ w.2 := by omega
      simp [hne]
    · rfl
  exact congrArg (List.map Prod.fst) hfilter

theorem Wired.held_channelOf (topic : τ) : (bus.channelOf t capacity).2.held topic =
    (bus.held topic).or (if t == topic then some (powerOfTwoAbove capacity) else none) := by
  obtain ⟨channel, hsome, ho⟩ | ⟨hnone, ho⟩ := channelOf_cases bus t capacity <;> rw [ho]
  · by_cases htopic : t = topic
    · subst htopic
      have hlt := h.lt_size hsome
      have hheld : bus.held t = some bus.channels[channel].capacity := by
        rw [held, hsome, Option.bind_some, Array.getElem?_eq_getElem hlt, Option.map_some]
      rw [hheld]
      rfl
    · simp [htopic]
  · by_cases htopic : t = topic
    · subst htopic
      simp [held, opened, hnone]
    · have hlookup : (bus.opened t capacity).topics.lookup topic = bus.topics.lookup topic := by
        rw [opened, List.lookup_cons, beq_false_of_ne (Ne.symm htopic)]
      rw [held, held, hlookup]
      rcases hsome : bus.topics.lookup topic with _ | channel
      · simp [htopic]
      · have hlt := h.lt_size hsome
        simp [opened, htopic, Array.getElem?_push_lt, hlt]

end Opening

section Coming

omit [BEq τ] in
theorem wiring_enroll (bus : Bus τ ε) (channel : Nat) :
    (bus.enroll channel).wiring = bus.wiring ++ [(bus.issued, channel)] := by
  simp [wiring, enroll]

variable (h : bus.Wired)
include h

theorem Wired.issued_not_mem : bus.issued ∉ bus.wiring.map Prod.fst := by
  rw [map_fst_wiring]
  intro hmem
  obtain ⟨⟨id, r⟩, he, rfl⟩ := List.mem_map.1 hmem
  have hlookup := lookup_of_mem (map_fst_wiring bus ▸ h.distinct) he
  exact absurd (h.receivers _ r hlookup) (Nat.lt_irrefl _)

theorem Wired.enroll {channel : Nat} (hlt : channel < bus.channels.size) :
    (bus.enroll channel).Wired where
  toSound := h.toSound.enroll channel
  apart := h.apart
  placed w hw := by
    rw [wiring_enroll, List.mem_append, List.mem_singleton] at hw
    obtain hw | rfl := hw
    · exact h.placed w hw
    · exact hlt
  distinct := by
    rw [wiring_enroll, List.map_append, List.nodup_append]
    refine ⟨h.distinct, List.nodup_singleton _, fun a ha b hb => ?_⟩
    rintro rfl
    obtain rfl : a = bus.issued := by simpa using hb
    exact h.issued_not_mem ha

/-- A receiver that comes listens to the topic of its channel alone. -/
theorem Wired.live_enroll [LawfulBEq τ] {channel : Nat} (ht : bus.topics.lookup t = some channel)
    (topic : τ) : (bus.enroll channel).live topic
      = bus.live topic ++ if t == topic then [bus.issued] else [] := by
  have htopic : (bus.topics.lookup topic == some channel) = (t == topic) := by
    rw [Bool.eq_iff_iff, beq_iff_eq, beq_iff_eq]
    exact ⟨fun h' => h.apart t topic channel ht h', fun h' => h' ▸ ht⟩
  rw [live, wiring_enroll, List.filter_append, List.map_append]
  refine congrArg (bus.live topic ++ ·) ?_
  rw [List.filter_cons]
  change List.map Prod.fst (if (bus.topics.lookup topic == some channel) = true then _ else _) = _
  rw [htopic]
  split <;> rfl

theorem Wired.subscribe [LawfulBEq τ] {capacity : Option Nat}
    (hs : bus.subscribe t capacity = .ok (id, bus')) : bus'.Wired ∧
    (∀ topic, bus'.live topic = bus.live topic ++ if t == topic then [id] else []) ∧
    (∀ topic, bus'.held topic = (bus.held topic).or
      (if t == topic then some (powerOfTwoAbove (capacity.getD bus.capacity)) else none)) := by
  obtain ⟨rfl, rfl⟩ := subscribe_eq_ok hs
  have hopened := h.channelOf t (capacity.getD bus.capacity)
  have ht := lookup_channelOf bus t (capacity.getD bus.capacity)
  refine ⟨hopened.enroll (hopened.lt_size ht), fun topic => ?_, fun topic => ?_⟩
  · rw [hopened.live_enroll ht, h.live_channelOf, issued_channelOf]
  · exact h.held_channelOf t _ topic

/-- A receiver that comes has nothing to read. -/
theorem Wired.tuned_subscribe [LawfulBEq τ] {capacity : Option Nat}
    (hs : bus.subscribe t capacity = .ok (id, bus')) :
    ∃ buffer, bus'.held t = some buffer ∧ bus'.Tuned t id ⟨buffer, [], true⟩ := by
  obtain ⟨rfl, rfl⟩ := subscribe_eq_ok hs
  have hopened := h.channelOf t (capacity.getD bus.capacity)
  have ht := lookup_channelOf bus t (capacity.getD bus.capacity)
  rw [← issued_channelOf bus t (capacity.getD bus.capacity)]
  generalize bus.channelOf t (capacity.getD bus.capacity) = opened at hopened ht ⊢
  obtain ⟨channel, opened⟩ := opened
  dsimp only at hopened ht ⊢
  obtain ⟨c, hc, hopen⟩ := hopened.topics t channel ht
  have hnew : opened.receivers.lookup opened.issued = none := by
    rcases hold : opened.receivers.lookup opened.issued with _ | r
    · rfl
    · exact absurd (hopened.receivers _ r hold) (Nat.lt_irrefl _)
  refine ⟨c.capacity, by simp [held, Bus.enroll, ht, hc], ⟨channel, c.sent.size⟩, c,
    place?_eq_some_iff.2 ⟨?_, hc⟩, Nat.le_refl _, ?_, fun t' => ?_⟩
  · simp [Bus.enroll, List.lookup_append, hnew, hc]
  · simp [Receiver.mailbox, hopen]
  · exact ⟨fun h' => ⟨hopened.apart t' t channel h' ht, hopen⟩, fun h' => h'.1 ▸ ht⟩

theorem Wired.publish [LawfulBEq τ] (t : τ) (e : ε) : (bus.publish t e).1 = (bus.live t).length ∧
    (bus.publish t e).2.Wired ∧ (∀ topic, (bus.publish t e).2.live topic = bus.live topic) ∧
    ∀ topic, (bus.publish t e).2.held topic = (bus.held topic).or
      (if t == topic then some (powerOfTwoAbove bus.capacity) else none) := by
  have hopened := h.channelOf t bus.capacity
  have hsound := h.toSound.publish t e
  have ht := lookup_channelOf bus t bus.capacity
  have hlive := fun topic => h.live_channelOf t bus.capacity topic
  have hheld := fun topic => h.held_channelOf t bus.capacity topic
  rw [Bus.publish] at hsound ⊢
  generalize bus.channelOf t bus.capacity = opened at hopened hsound ht hlive hheld ⊢
  obtain ⟨channel, opened⟩ := opened
  dsimp only at hopened hsound ht hlive hheld ⊢
  have hcount : opened.listeners channel = (bus.live t).length := by
    rw [← hlive, live, List.length_map, listeners_eq, ht]
    refine congrArg List.length (List.filter_congr fun w _ => ?_)
    rw [Bool.eq_iff_iff, beq_iff_eq, beq_iff_eq, Option.some.injEq, eq_comm]
  have hsend := Alike.send opened channel e
  rcases hn : opened.listeners channel with _ | n <;> rw [hn] at hsound hcount
  · exact ⟨hcount, hopened, hlive, hheld⟩
  · refine ⟨hcount, hsend.wired hopened hsound, fun topic => ?_, fun topic => ?_⟩
    · exact (hsend.live_eq topic).trans (hlive topic)
    · exact (hsend.held_eq topic).trans (hheld topic)

theorem Wired.drop (id : Nat) : (bus.drop id).Wired ∧
    (∀ topic, (bus.drop id).live topic = (bus.live topic).filter (· != id)) ∧
    ∀ topic, (bus.drop id).held topic = bus.held topic := by
  have hwiring : (bus.drop id).wiring = bus.wiring.filter (·.1 != id) := by
    rw [wiring, wiring, List.filter_map]
    rfl
  refine ⟨⟨h.toSound.drop id, h.apart, fun w hw => ?_, ?_⟩, fun topic => ?_, fun _ => rfl⟩
  · rw [hwiring] at hw
    exact h.placed w (List.mem_filter.1 hw).1
  · rw [hwiring]
    exact h.distinct.sublist (List.filter_sublist.map _)
  · rw [live, live, hwiring, List.filter_map, List.filter_filter, List.filter_filter]
    refine congrArg (List.map Prod.fst) (List.filter_congr fun w _ => ?_)
    exact Bool.and_comm _ _

theorem Wired.shutdown : bus.shutdown.2.Wired ∧ (∀ topic, bus.shutdown.2.live topic = []) ∧
    ∀ topic, bus.shutdown.2.held topic = none := by
  refine ⟨⟨⟨h.capacity, h.receivers, nofun⟩, nofun, fun w hw => ?_, h.distinct⟩, fun topic => ?_,
    fun _ => rfl⟩
  · simpa [Bus.shutdown] using h.placed w hw
  · simp [live, Bus.shutdown]

end Coming

end Wiring

end Bus

end Registrar
