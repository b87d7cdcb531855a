import Taskyard.Bus.Topic

/-!
# Bus — what a subscriber has not received

The messages that a subscriber has still to receive are a queue: a receipt takes the first of them,
and a publication puts its message behind them, unless the subscriber has fallen so far behind that
the oldest of them has to make room.

Main definitions and results:

* `Topic.unread` — the messages that a subscriber has still to receive.
* `Topic.Serves` — the subscriber is live, and its place is one of the topic.
* `unread_publish`, `unread_receive` — publication and receipt.
* `exists_receive` — there is a receipt as long as there is something to receive.
-/

namespace Taskyard.Topic

variable {α : Type} {t : Topic α} {n : Nat}

/-- The kept messages that a subscriber has still to receive, the oldest first. -/
def unread (t : Topic α) (subscriber : Nat) : List α :=
  match t.place? subscriber with
  | none => []
  | some place => t.kept.drop (place - t.dropped)

/-- The subscriber is live, and both its place and the kept messages lie within what was sent. -/
structure Serves (t : Topic α) (subscriber : Nat) : Prop where
  /-- The place. -/
  place : ∃ place, t.place? subscriber = some place ∧ place ≤ t.sent
  /-- No more is kept than was sent. -/
  sent : t.kept.length ≤ t.sent
  /-- No more is kept than there are slots. -/
  room : t.kept.length ≤ t.slots

/-- A reader that is served is itself a subscriber. -/
theorem Serves.subscribers_ne_zero (h : t.Serves n) : t.subscribers ≠ 0 := by
  obtain ⟨place, hPlace, -⟩ := h.place
  have hMem : some place ∈ t.places := by
    rw [place?] at hPlace
    cases hGet : t.places[n]? with
    | none =>
      rw [hGet] at hPlace
      cases hPlace
    | some o =>
      rw [hGet] at hPlace
      obtain rfl : o = some place := hPlace
      exact List.mem_of_getElem? hGet
  -- a live subscriber is counted, so the topic is not closed
  have hLive : some place ∈ t.places.filter Option.isSome := List.mem_filter.mpr ⟨hMem, rfl⟩
  intro hNone
  rw [List.length_eq_zero_iff.mp hNone] at hLive
  cases hLive

theorem publish_eq (h : t.Serves n) (a : α) :
    (t.publish a).1 = { t with kept := newest t.slots (t.kept ++ [a]), sent := t.sent + 1 } := by
  rw [publish, if_neg h.subscribers_ne_zero]

/-- Publishing never takes a reader's place away. -/
theorem Serves.publish (h : t.Serves n) (a : α) : (t.publish a).1.Serves n := by
  obtain ⟨place, hPlace, hLe⟩ := h.place
  have hSent := h.sent
  have hRoom := h.room
  rw [publish_eq h]
  -- the count of all messages grows by one, and the oldest goes when there is no slot left
  refine ⟨⟨place, hPlace, ?_⟩, ?_, ?_⟩
  · show place ≤ t.sent + 1
    omega
  · show (newest t.slots (t.kept ++ [a])).length ≤ t.sent + 1
    rw [newest, List.length_drop, List.length_append, List.length_singleton]
    omega
  · show (newest t.slots (t.kept ++ [a])).length ≤ t.slots
    rw [newest, List.length_drop]
    omega

/-- A message that is published stands behind what the subscriber has not received, and the oldest
messages make room for it. -/
theorem unread_publish_newest (h : t.Serves n) (a : α) :
    (t.publish a).1.unread n = newest t.slots (t.unread n ++ [a]) := by
  obtain ⟨place, hPlace, hLe⟩ := h.place
  have hSent := h.sent
  have hRoom := h.room
  have hDropped : t.dropped = t.sent - t.kept.length := rfl
  have hUnread : t.unread n = t.kept.drop (place - t.dropped) := by
    rw [unread, hPlace]
  have hAfter : (t.publish a).1.unread n = (newest t.slots (t.kept ++ [a])).drop
      (place - (t.sent + 1 - (newest t.slots (t.kept ++ [a])).length)) := by
    rw [publish_eq h, unread]
    show (match t.place? n with
      | none => []
      | some place => (newest t.slots (t.kept ++ [a])).drop
          (place - (t.sent + 1 - (newest t.slots (t.kept ++ [a])).length))) = _
    rw [hPlace]
  -- dropping from the front commutes with appending, as far as lengths go
  rw [hAfter, hUnread, ← List.drop_append_of_le_length (by omega)]
  simp only [newest, List.length_drop, List.length_append, List.length_singleton, List.drop_drop]
  congr 1
  omega

/-- As long as there is a free slot behind its place, a subscriber misses nothing by a
publication. -/
theorem unread_publish (h : t.Serves n) (hFree : (t.unread n).length < t.slots) (a : α) :
    (t.publish a).1.unread n = t.unread n ++ [a] := by
  have hRoom : (t.unread n ++ [a]).length - t.slots = 0 := by
    rw [List.length_append, List.length_singleton]
    omega
  rw [unread_publish_newest h, newest, hRoom, List.drop_zero]

/-- The place just set is the one that is read back. -/
theorem place?_set {place : Nat} (hPlace : t.place? n = some place) (next : Nat) :
    { t with places := t.places.set n (some next) }.place? n = some next := by
  have hLt : n < t.places.length := by
    rcases Nat.lt_or_ge n t.places.length with hLt | hGe
    · exact hLt
    · rw [place?, List.getElem?_eq_none hGe] at hPlace
      cases hPlace
  rw [place?, List.getElem?_set_self hLt]
  rfl

/-- A message that is received is the first that was not, and the others are left. -/
theorem unread_receive {t' : Topic α} {a : α} (h : t.Serves n)
    (hReceive : t.receive n = (t', .message a)) :
    t.unread n = a :: t'.unread n ∧ t'.Serves n := by
  obtain ⟨place, hPlace, hLe⟩ := h.place
  have hSent := h.sent
  rw [receive, hPlace] at hReceive
  dsimp only at hReceive
  -- nothing was received unless there is a message at the place
  cases hMessage : t.messageFrom place with
  | none =>
    rw [hMessage] at hReceive
    dsimp only at hReceive
    split at hReceive <;> cases hReceive
  | some found =>
    obtain ⟨b, next⟩ := found
    rw [hMessage] at hReceive
    cases hReceive
    rw [messageFrom, Option.map_eq_some_iff] at hMessage
    obtain ⟨c, hGet, hEq⟩ := hMessage
    cases hEq
    -- the place is not behind what is kept, or the subscriber skips to it
    have hIndex : max place t.dropped - t.dropped = place - t.dropped := by omega
    rw [hIndex] at hGet
    obtain ⟨hLt, hItem⟩ := List.getElem?_eq_some_iff.mp hGet
    have hDropped : t.dropped = t.sent - t.kept.length := rfl
    have hNext := place?_set hPlace (max place t.dropped + 1)
    constructor
    · have hRest : max place t.dropped + 1 - t.dropped = place - t.dropped + 1 := by omega
      have hAfter : { t with places := t.places.set n (some (max place t.dropped + 1)) }.unread n =
          t.kept.drop (max place t.dropped + 1 - t.dropped) := by
        rw [unread, hNext]
        rfl
      rw [hAfter, hRest, unread, hPlace]
      show t.kept.drop (place - t.dropped) = _
      rw [List.drop_eq_getElem_cons hLt, hItem]
    · refine ⟨⟨_, hNext, ?_⟩, hSent, h.room⟩
      show max place t.dropped + 1 ≤ t.sent
      omega

/-- A subscriber that has not received a message receives one next. -/
theorem exists_receive (h : t.Serves n) (hUnread : t.unread n ≠ []) :
    ∃ t' a, t.receive n = (t', .message a) := by
  obtain ⟨place, hPlace, -⟩ := h.place
  rw [unread, hPlace] at hUnread
  have hLt : max place t.dropped - t.dropped < t.kept.length := by
    have hSome : 0 < (t.kept.drop (place - t.dropped)).length := List.length_pos_iff.mpr hUnread
    rw [List.length_drop] at hSome
    omega
  rw [receive, hPlace]
  unfold messageFrom
  simp only [List.getElem?_eq_getElem hLt, Option.map_some]
  exact ⟨_, _, rfl⟩

/-- A subscriber of a topic without messages has received them all. -/
theorem serves_create (capacity : Nat) : ((create capacity : Topic α).subscribe.1).Serves 0 where
  place := ⟨0, rfl, Nat.le_refl 0⟩
  sent := Nat.le_refl 0
  room := Nat.zero_le _

end Taskyard.Topic
