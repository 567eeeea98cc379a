import EzSdr.Framework.Machine
import EzSdr.Framework.BTreeMap
import EzSdr.Framework.BoundedQueue

/-! # The Broadcaster

    Every subscriber owns a bounded queue. A publisher loads the list of
    subscribers once and then handles them in turn; the operations on a queue
    and on a drop counter are single atomic steps, so the steps of several
    publishers and of the consumers interleave. -/

namespace Broadcast

/-! ## Section 1: State -/

abbrev SubscriberId : Type := ℕ

/-- A thread that publishes. -/
abbrev PublisherId : Type := ℕ

/-- What happens when a queue is full and another value arrives. -/
inductive OverflowPolicy where
  | dropOldest
  | dropIncoming
  deriving DecidableEq

/-- What the entry of a subscriber shares with its handle. -/
structure Subscriber (α : Type) where
  queue   : BoundedQueue α
  policy  : OverflowPolicy
  dropped : ℕ

/-- Where a publisher is in the handling of one subscriber. -/
inductive Phase where
  /-- Before the first `try_send`. -/
  | send
  /-- The queue was full: before the `try_recv` that evicts. -/
  | evict
  /-- Before the second `try_send`. -/
  | resend (evicted : Bool)
  /-- Before the drop counter is raised. -/
  | count (evicted rejected : Bool)
  deriving DecidableEq

/-- A call of `publish` in progress. -/
structure Publishing (α : Type) where
  value   : α
  /-- Subscribers of the snapshot that are done. -/
  handled : List SubscriberId
  /-- The others, the one being handled first. -/
  rest    : List SubscriberId
  phase   : Phase

structure State (α : Type) where
  subscribers : List SubscriberId
  nextId      : ℕ
  /-- Queues outlive their handles while a snapshot refers to them. -/
  table       : BTreeMap SubscriberId (Subscriber α)
  publishers  : BTreeMap PublisherId (Publishing α)

inductive Input (α : Type) where
  | subscribe (capacity : ℕ) (policy : OverflowPolicy)
  /-- The handle is dropped. -/
  | unsubscribe (i : SubscriberId)
  | publish (p : PublisherId) (value : α)
  /-- The publisher makes its next atomic step. -/
  | advance (p : PublisherId)
  | tryRecv (i : SubscriberId)

inductive Output (α : Type) where
  | silent
  | subscribed (i : SubscriberId)
  | published (snapshot : List SubscriberId)
  | counted (i : SubscriberId) (n : ℕ)
  | completed (value : α) (snapshot : List SubscriberId)
  | received (i : SubscriberId) (value : α)

variable {α : Type}

/-! ## Section 2: Publishing to one subscriber -/

/-- What the handling of a subscriber does next: it is over, or goes on in `phase`. -/
structure Handled (α : Type) where
  subscriber : Subscriber α
  phase      : Option Phase
  counted    : ℕ

/-- One atomic step of the body of the loop in `publish`. No snapshot outlives
    the receiving side of its queues, so a queue is never disconnected. -/
def handle (value : α) (sub : Subscriber α) (phase : Phase) : Handled α :=
  match phase with
  | .send =>
    match sub.queue.trySend value with
    | some queue => ⟨{ sub with queue := queue }, none, 0⟩
    | none =>
      match sub.policy with
      | .dropOldest => ⟨sub, some .evict, 0⟩
      | .dropIncoming => ⟨sub, some (.count false true), 0⟩
  | .evict =>
    match sub.queue.tryRecv with
    | some (_, queue) => ⟨{ sub with queue := queue }, some (.resend true), 0⟩
    -- the consumer, or another publisher, emptied it
    | none => ⟨sub, some (.resend false), 0⟩
  | .resend evicted =>
    match sub.queue.trySend value with
    | some queue => ⟨{ sub with queue := queue }, some (.count evicted false), 0⟩
    -- another publisher took the place
    | none => ⟨sub, some (.count evicted true), 0⟩
  | .count evicted rejected =>
    let n := evicted.toNat + rejected.toNat
    ⟨{ sub with dropped := (sub.dropped + n) % 2 ^ 64 }, none, n⟩

/-! ## Section 3: The machine -/

/-- `Broadcaster::subscribe`. -/
def State.subscribe (s : State α) (capacity : ℕ) (policy : OverflowPolicy) : State α where
  subscribers := s.subscribers ++ [s.nextId]
  nextId := s.nextId + 1
  table := s.table.insert s.nextId
    { queue := BoundedQueue.empty (max capacity 1) (by omega), policy := policy, dropped := 0 }
  publishers := s.publishers

/-- The publisher goes to the next subscriber, or on with this one. -/
def Publishing.proceed (x : Publishing α) (i : SubscriberId) (rest : List SubscriberId) :
    Option Phase → Publishing α
  | none => { x with handled := x.handled ++ [i], rest := rest, phase := .send }
  | some phase => { x with phase := phase }

/-- `publish` loads the list of subscribers. A busy publisher does not begin again. -/
def State.publish (s : State α) (p : PublisherId) (value : α) : State α × Output α :=
  match s.publishers.get? p with
  | some _ => (s, .silent)
  | none =>
    ({ s with publishers := s.publishers.insert p ⟨value, [], s.subscribers, .send⟩ },
     .published s.subscribers)

/-- The next atomic step of publisher `p`, which is in the middle of `x`. -/
def State.resume (s : State α) (p : PublisherId) (x : Publishing α) : State α × Output α :=
  match x.rest with
  | [] => ({ s with publishers := s.publishers.erase p }, .completed x.value x.handled)
  | i :: rest =>
    match s.table.get? i with
    | none => (s, .silent)
    | some sub =>
      let r := handle x.value sub x.phase
      ({ s with table := s.table.insert i r.subscriber,
                publishers := s.publishers.insert p (x.proceed i rest r.phase) },
       .counted i r.counted)

/-- An idle publisher has no step to make. -/
def State.advance (s : State α) (p : PublisherId) : State α × Output α :=
  match s.publishers.get? p with
  | none => (s, .silent)
  | some x => s.resume p x

/-- `BroadcasterHandle::try_recv`, on a handle that is still held. -/
def State.tryRecv (s : State α) (i : SubscriberId) : State α × Output α :=
  match s.table.get? i with
  | none => (s, .silent)
  | some sub =>
    match sub.queue.tryRecv with
    | none => (s, .silent)
    | some (value, queue) =>
      if i ∈ s.subscribers then
        ({ s with table := s.table.insert i { sub with queue := queue } }, .received i value)
      else (s, .silent)

/-- One step. -/
def step (s : State α) : Input α → State α × Output α
  | .subscribe capacity policy => (s.subscribe capacity policy, .subscribed s.nextId)
  | .unsubscribe i => ({ s with subscribers := s.subscribers.filter (· ≠ i) }, .silent)
  | .publish p value => s.publish p value
  | .advance p => s.advance p
  | .tryRecv i => s.tryRecv i

def initialState : State α := ⟨[], 0, BTreeMap.empty, BTreeMap.empty⟩

/-- The broadcaster, its publishers and its consumers. -/
def machine : Machine (State α) (Input α) (Output α) where
  init := initialState
  step s input := some (step s input)

end Broadcast
