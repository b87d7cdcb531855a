/-!
# Bus — topics

A topic hands every message that is published to each of its subscribers, in order. It keeps the
newest messages only, as many as it has slots, so a subscriber that falls behind goes on with the
oldest message that is still kept. When a topic closes, what it keeps can still be received.

Main definitions:

* `slotsFor` — the number of slots for a wished capacity: the next power of two.
* `Topic` — the messages kept and the places of the subscribers.
* `Topic.subscribe`, `Topic.publish`, `Topic.receive`, `Topic.unsubscribe`, `Topic.close` — the
  operations.
-/

namespace Taskyard

/-- The first power of two that is at least `n`, tried from `p` on so many times. -/
def powerFrom (n : Nat) : Nat → Nat → Nat
  | 0, p => p
  | tries + 1, p => if n ≤ p then p else powerFrom n tries (2 * p)

/-- The number of slots for a wished capacity: the least power of two that is not below it, to which
the `broadcast` channel of a topic rounds it up. -/
def slotsFor (capacity : Nat) : Nat := powerFrom capacity capacity 1

/-- A topic for messages of type `α`: a `Topic` of the bus with the `broadcast` channel below it. -/
structure Topic (α : Type) where
  /-- The number of messages that are kept. -/
  slots : Nat
  /-- The newest messages, the oldest of them first. -/
  kept : List α := []
  /-- The number of messages published so far. -/
  sent : Nat := 0
  /-- For each subscriber, live or gone, the number of messages that lie behind it. -/
  places : List (Option Nat) := []
  /-- Whether nothing more can be published. -/
  closed : Bool := false

/-- What a subscriber finds. -/
inductive Receipt (α : Type) where
  /-- A message. -/
  | message (a : α)
  /-- No message yet. -/
  | pending
  /-- No message now or ever. -/
  | ended
  deriving DecidableEq, Repr

namespace Topic

variable {α : Type}

/-- A topic of a capacity. -/
def create (capacity : Nat) : Topic α := { slots := slotsFor capacity }

/-- The number of live subscribers: `subscriber_count`. -/
def subscribers (t : Topic α) : Nat := (t.places.filter Option.isSome).length

/-- The topic with one more subscriber, which is known by its number and receives what is published
from now on. -/
def subscribe (t : Topic α) : Topic α × Nat :=
  ({ t with places := t.places ++ [some t.sent] }, t.places.length)

/-- The number of messages published before the oldest one that is kept. -/
def dropped (t : Topic α) : Nat := t.sent - t.kept.length

/-- The newest so many members of a list. -/
def newest (n : Nat) (l : List α) : List α := l.drop (l.length - n)

/-- The topic with one more message, and the number of subscribers that will receive it. Without a
subscriber nobody ever will, and the message is not kept. -/
def publish (t : Topic α) (a : α) : Topic α × Nat :=
  if t.subscribers = 0 then (t, 0)
  else ({ t with kept := newest t.slots (t.kept ++ [a]), sent := t.sent + 1 }, t.subscribers)

/-- The place of a subscriber, if it is live. -/
def place? (t : Topic α) (subscriber : Nat) : Option Nat := (t.places[subscriber]?).join

/-- The earliest message at or after a place that is still kept, and the place after it. -/
def messageFrom (t : Topic α) (place : Nat) : Option (α × Nat) :=
  let next := max place t.dropped
  (t.kept[next - t.dropped]?).map (·, next + 1)

/-- What a subscriber finds next, and the topic after that: `next` and `try_next` of a
`Subscription`, which try again after they have lagged behind. -/
def receive (t : Topic α) (subscriber : Nat) : Topic α × Receipt α :=
  match t.place? subscriber with
  | none => (t, .ended)
  | some place =>
    match t.messageFrom place with
    | some (a, next) => ({ t with places := t.places.set subscriber (some next) }, .message a)
    | none => (t, if t.closed then .ended else .pending)

/-- The topic after a `Subscription` was dropped. The others keep their numbers. -/
def unsubscribe (t : Topic α) (subscriber : Nat) : Topic α :=
  { t with places := t.places.set subscriber none }

/-- The topic after its end, when the last sender of its channel is gone. -/
def close (t : Topic α) : Topic α := { t with closed := true }

end Topic

end Taskyard
