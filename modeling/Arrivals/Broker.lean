import Arrivals.Mqtt.Encode
import Arrivals.Mqtt.Topic
import Arrivals.Table

/-! Subscriptions, and the queues through which frames reach the clients. A frame that finds a queue
full or closed is dropped; nobody waits. -/

namespace Arrivals

open Mqtt

abbrev ClientId := Nat
abbrev QueueId := String

structure Outbox where
  frames : List Bytes
  capacity : Nat
  closed : Bool
  deriving DecidableEq, Repr, Inhabited

namespace Outbox

def accepts (o : Outbox) : Bool := !o.closed && o.frames.length < o.capacity

def push (o : Outbox) (frame : Bytes) : Outbox := { o with frames := o.frames ++ [frame] }

end Outbox

/-- A client's filters, in the order of their coming, and the queue it gave with the first. -/
structure Subscriber where
  filters : List String
  queue : QueueId
  deriving DecidableEq, Repr, Inhabited

def Subscriber.wants (s : Subscriber) (topic : String) : Bool :=
  s.filters.any fun f => Topic.covers f topic

structure Broker where
  subscribers : Table ClientId Subscriber
  outboxes : Table QueueId Outbox
  clients : Nat
  deriving Inhabited

structure Delivery where
  delivered : Nat
  dropped : Nat
  deriving DecidableEq, Repr, Inhabited

namespace Delivery

def none : Delivery := ⟨0, 0⟩

def add (a b : Delivery) : Delivery := ⟨a.delivered + b.delivered, a.dropped + b.dropped⟩

end Delivery

namespace Broker

def empty : Broker := ⟨.empty, .empty, 0⟩

/-- A fresh client id; the first is 1. -/
def nextClient (b : Broker) : ClientId × Broker := (b.clients + 1, { b with clients := b.clients + 1 })

def subscriberCount (b : Broker) : Nat := b.subscribers.size

def openQueue (b : Broker) (q : QueueId) (capacity : Nat) : Broker :=
  if b.outboxes.contains q then b
  else { b with outboxes := b.outboxes.insert q ⟨[], capacity, false⟩ }

def closeQueue (b : Broker) (q : QueueId) : Broker :=
  match b.outboxes.get? q with
  | some o => { b with outboxes := b.outboxes.insert q { o with frames := [], closed := true } }
  | none => b

def receive (b : Broker) (q : QueueId) : List Bytes × Broker :=
  match b.outboxes.get? q with
  | some o => (o.frames, { b with outboxes := b.outboxes.insert q { o with frames := [] } })
  | none => ([], b)

def filtersOf (b : Broker) (client : ClientId) : List String :=
  ((b.subscribers.get? client).map Subscriber.filters).getD []

def subscribe (b : Broker) (client : ClientId) (filter : String) (q : QueueId) : Broker :=
  let s := (b.subscribers.get? client).getD ⟨[], q⟩
  let filters := if s.filters.contains filter then s.filters else s.filters ++ [filter]
  { b with subscribers := b.subscribers.insert client { s with filters } }

def remove (b : Broker) (client : ClientId) : Broker :=
  { b with subscribers := b.subscribers.erase client }

/-- A client without filters is forgotten. -/
def unsubscribe (b : Broker) (client : ClientId) (filter : String) : Broker :=
  match b.subscribers.get? client with
  | none => b
  | some s =>
    let filters := s.filters.filter fun f => f != filter
    if filters.isEmpty then b.remove client
    else { b with subscribers := b.subscribers.insert client { s with filters } }

def offer (frame : Bytes) (outboxes : Table QueueId Outbox) (q : QueueId) :
    Table QueueId Outbox × Delivery :=
  match outboxes.get? q with
  | some o => if o.accepts then (outboxes.insert q (o.push frame), ⟨1, 0⟩) else (outboxes, ⟨0, 1⟩)
  | none => (outboxes, ⟨0, 1⟩)

def offerAll (frame : Bytes) (outboxes : Table QueueId Outbox) :
    List QueueId → Table QueueId Outbox × Delivery
  | [] => (outboxes, .none)
  | q :: rest =>
    let (outboxes, first) := offer frame outboxes q
    let (outboxes, others) := offerAll frame outboxes rest
    (outboxes, first.add others)

def publish (b : Broker) (topic : String) (payload : Bytes) : Delivery × Broker :=
  let frame := (Packet.publish (.atMostOnce topic payload)).encode
  let queues := (b.subscribers.values.filter fun s => s.wants topic).map Subscriber.queue
  let (outboxes, delivery) := offerAll frame b.outboxes queues
  (delivery, { b with outboxes })

end Broker

end Arrivals
