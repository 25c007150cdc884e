import Registrar.Text

/-!
# The event bus

The bus has a channel for each topic, opened by the first who subscribes or publishes there. Every
receiver of a channel reads the events published since it subscribed, in order. A channel holds a
bounded number of events; a receiver that falls further behind is told how many it lost and goes on
with the oldest one held.
-/

namespace Registrar

inductive BusError.Cause where
  | typeMismatch (message : String)
  | invalidCapacity (message : String)
  deriving DecidableEq

structure BusError where
  cause : BusError.Cause
  context : Option String := none
  deriving DecidableEq

namespace BusError

def label (e : BusError) : String :=
  match e.cause with
  | .typeMismatch _ => "TypeMismatch"
  | .invalidCapacity _ => "InvalidCapacity"

def message (e : BusError) : String :=
  match e.cause with
  | .typeMismatch message => s!"Type mismatch{Context.suffix e.context}: {message}"
  | .invalidCapacity message => s!"Invalid capacity{Context.suffix e.context}: {message}"

end BusError

/-- The events of a topic since its channel was opened. -/
structure Bus.Channel (ε : Type) where
  /-- How many events a receiver may leave unread without losing any. -/
  capacity : Nat
  /-- The events sent while someone was listening. -/
  sent : Array ε
  isOpen : Bool

/-- A place in a channel. -/
structure Bus.Receiver where
  channel : Nat
  /-- How many events of the channel lie behind. -/
  next : Nat

inductive Bus.Received (ε : Type) where
  | event (e : ε)
  /-- So many events were lost. -/
  | lagged (n : Nat)
  | empty
  /-- Nothing is left to read, and nothing will come. -/
  | closed
  deriving DecidableEq

/-- Channels by topic, those shut down included, and the receivers that are in use. -/
structure Bus (τ ε : Type) where
  capacity : Nat
  channels : Array (Bus.Channel ε)
  topics : List (τ × Nat)
  receivers : List (Nat × Bus.Receiver)
  issued : Nat

namespace Bus

variable {τ ε : Type} [BEq τ]

def defaultCapacity : Nat :=
  128

def checkCapacity (capacity : Nat) : Except BusError Unit :=
  if capacity = 0 then .error { cause := .invalidCapacity "capacity must be >= 1" } else .ok ()

/-- The least power of two that is not below `n`. -/
def powerOfTwoAbove (n : Nat) : Nat :=
  if n ≤ 1 then 1 else Nat.pow 2 (Nat.log2 (n - 1) + 1)

def idle (capacity : Nat) : Bus τ ε :=
  ⟨capacity, #[], [], [], 0⟩

/-- A bus whose channels have the given capacity. -/
def create (capacity : Nat) : Except BusError (Bus τ ε) := do
  checkCapacity capacity
  return idle capacity

/-- The channel of a topic, opened with the given capacity if there is none. -/
def channelOf (bus : Bus τ ε) (topic : τ) (capacity : Nat) : Nat × Bus τ ε :=
  match bus.topics.lookup topic with
  | some id => (id, bus)
  | none =>
    let id := bus.channels.size
    (id, { bus with
      channels := bus.channels.push ⟨powerOfTwoAbove capacity, #[], true⟩
      topics := (topic, id) :: bus.topics })

/-- Subscribes to a topic; the receiver starts behind everything sent so far. -/
def subscribe (bus : Bus τ ε) (topic : τ) (capacity : Option Nat) :
    Except BusError (Nat × Bus τ ε) := do
  let capacity := capacity.getD bus.capacity
  checkCapacity capacity
  let (id, bus) := bus.channelOf topic capacity
  let next := (bus.channels[id]?).elim 0 (·.sent.size)
  return (bus.issued, { bus with
    receivers := bus.receivers ++ [(bus.issued, ⟨id, next⟩)]
    issued := bus.issued + 1 })

def listeners (bus : Bus τ ε) (channel : Nat) : Nat :=
  bus.receivers.countP (·.2.channel == channel)

def receiverCount (bus : Bus τ ε) (topic : τ) : Nat :=
  (bus.topics.lookup topic).elim 0 bus.listeners

def Channel.send (e : ε) (c : Channel ε) : Channel ε :=
  { c with sent := c.sent.push e }

/-- Sends an event to all who listen to a topic and counts them. No one who subscribes later sees
it. -/
def publish (bus : Bus τ ε) (topic : τ) (e : ε) : Nat × Bus τ ε :=
  let (id, bus) := bus.channelOf topic bus.capacity
  match bus.listeners id with
  | 0 => (0, bus)
  | n => (n, { bus with channels := bus.channels.modify id (Channel.send e) })

/-- What a place in a channel has to read, and the place behind it. -/
def Receiver.read (r : Receiver) (c : Channel ε) : Received ε × Receiver :=
  if r.next + c.capacity < c.sent.size then
    (.lagged (c.sent.size - c.capacity - r.next), { r with next := c.sent.size - c.capacity })
  else match c.sent[r.next]? with
    | some e => (.event e, { r with next := r.next + 1 })
    | none => (if c.isOpen then .empty else .closed, r)

/-- The next thing that a receiver has to read. A receiver no longer in use reads nothing. -/
def receive (bus : Bus τ ε) (id : Nat) : Received ε × Bus τ ε :=
  match bus.receivers.lookup id with
  | none => (.closed, bus)
  | some r =>
    match bus.channels[r.channel]? with
    | none => (.closed, bus)
    | some c =>
      let (received, r) := r.read c
      (received, { bus with
        receivers := bus.receivers.map (fun e => if e.1 == id then (id, r) else e) })

/-- The next event of a receiver, past those it lost. -/
def receiveEvent (bus : Bus τ ε) (id : Nat) : Received ε × Bus τ ε :=
  match bus.receive id with
  | (.lagged _, bus) => bus.receive id
  | other => other

def drop (bus : Bus τ ε) (id : Nat) : Bus τ ε :=
  { bus with receivers := bus.receivers.filter (·.1 != id) }

/-- Shuts all channels and counts them. Their receivers may still read what was sent. -/
def shutdown (bus : Bus τ ε) : Nat × Bus τ ε :=
  (bus.topics.length, { bus with
    channels := bus.channels.map (fun c => { c with isOpen := false })
    topics := [] })

end Bus

end Registrar
