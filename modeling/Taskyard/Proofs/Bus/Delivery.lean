import Mathlib.Data.List.Induction
import Mathlib.Data.Nat.Log
import Mathlib.Order.Bounds.Basic
import Taskyard.Proofs.Bus.Unread
import Taskyard.Proofs.Split

/-!
# Bus — what subscribers receive

Whatever is done with a topic, each subscriber receives messages that were published after it
subscribed, in the order of publication and each once: always the earliest one after the last that
it received, among those that the topic still keeps. So a subscriber that is never further behind
than there are slots misses nothing, one that is misses the oldest only, and what the others do
makes no difference to it.

Main definitions and results:

* `Topic.Observed` — a topic and the log of all that was done with it since it was created.
* `Topic.Reader` — what a subscriber should have been told, going by the messages alone.
* `Topic.Retried` — a receipt as repeated attempts, each of which may find that messages are gone.
* `Topic.Observed.tracked` — a topic and the readers of its log agree.
* `Topic.delivery` — what every log of a topic is like.
-/

namespace Taskyard

/-! ## The number of slots -/

/-- Above a power of two, the next one is twice as large. -/
theorem two_mul_le_of_isPowerOfTwo {p m : Nat} (hp : p.isPowerOfTwo) (hm : m.isPowerOfTwo)
    (hLt : p < m) : 2 * p ≤ m := by
  obtain ⟨i, rfl⟩ := hp
  obtain ⟨j, rfl⟩ := hm
  have hExponent : i < j := (Nat.pow_lt_pow_iff_right Nat.one_lt_two).mp hLt
  calc 2 * 2 ^ i = 2 ^ (i + 1) := (Nat.pow_succ').symm
    _ ≤ 2 ^ j := Nat.pow_le_pow_right Nat.two_pos hExponent

/-- The powers of two from one on that is not too large are tried until one is large enough. -/
theorem isLeast_powerFrom {n tries p : Nat} (hp : p.isPowerOfTwo)
    (hLeast : ∀ m, m.isPowerOfTwo → n ≤ m → p ≤ m) (hEnough : n ≤ p + tries) :
    IsLeast {m | m.isPowerOfTwo ∧ n ≤ m} (powerFrom n tries p) := by
  induction tries generalizing p with
  | zero => exact ⟨⟨hp, hEnough⟩, fun m hm => hLeast m hm.1 hm.2⟩
  | succ tries ih =>
    rw [powerFrom]
    split
    · next hLe => exact ⟨⟨hp, hLe⟩, fun m hm => hLeast m hm.1 hm.2⟩
    · next hGt =>
      have hPos : 0 < p := Nat.pos_of_isPowerOfTwo hp
      refine ih ?_ (fun m hm hn => two_mul_le_of_isPowerOfTwo hp hm (by omega)) (by omega)
      rw [Nat.mul_comm]
      exact Nat.isPowerOfTwo_mul_two_of_isPowerOfTwo hp

/-- The capacity a topic is created with is rounded up to the next power of two, and 0 counts as
1. -/
theorem isLeast_slotsFor (capacity : Nat) :
    IsLeast {m | m.isPowerOfTwo ∧ max capacity 1 ≤ m} (slotsFor capacity) := by
  have hOne : ∀ m : Nat, m.isPowerOfTwo → 1 ≤ m := fun _ => Nat.pos_of_isPowerOfTwo
  have hFrom : IsLeast {m | m.isPowerOfTwo ∧ capacity ≤ m} (slotsFor capacity) :=
    isLeast_powerFrom Nat.isPowerOfTwo_one (fun m hm _ => hOne m hm) (Nat.le_add_left _ _)
  obtain ⟨⟨hPower, hLe⟩, hLeast⟩ := hFrom
  exact ⟨⟨hPower, max_le hLe (hOne _ hPower)⟩,
    fun m ⟨hm, hMax⟩ => hLeast ⟨hm, le_trans (le_max_left _ _) hMax⟩⟩

theorem slotsFor_pos (capacity : Nat) : 0 < slotsFor capacity :=
  Nat.pos_of_isPowerOfTwo (isLeast_slotsFor capacity).1.1

/-- The message of a receipt. -/
def Receipt.message? {α : Type} : Receipt α → Option α
  | .message a => some a
  | _ => none

namespace Topic

/-! ## What is done with a topic -/

section Operations

variable {α : Type}

/-- Something that is done with a topic, by its owner or by a subscriber. -/
inductive Operation (α : Type) where
  | subscribe
  | publish (a : α)
  | next (subscriber : Nat)
  | tryNext (subscriber : Nat)
  | unsubscribe (subscriber : Nat)
  | close

/-- What a subscriber is told that asks for the next message: whether there may still be one when it
waits, and only the message when it polls. -/
inductive Reply (α : Type) where
  | waited (found : Receipt α)
  | polled (found : Option α)
  deriving DecidableEq, Repr

/-- The reply to a subscriber that waits or not. -/
def Reply.of (waits : Bool) (found : Receipt α) : Reply α :=
  if waits then .waited found else .polled found.message?

/-- Whether the subscriber waits. -/
def Reply.waits : Reply α → Bool
  | .waited _ => true
  | .polled _ => false

/-- The message of a reply. -/
def Reply.message? : Reply α → Option α
  | .waited found => found.message?
  | .polled found => found

@[simp]
theorem Reply.waits_of (waits : Bool) (found : Receipt α) :
    (Reply.of waits found).waits = waits := by
  cases waits <;> rfl

@[simp]
theorem Reply.message?_of (waits : Bool) (found : Receipt α) :
    (Reply.of waits found).message? = found.message? := by
  cases waits <;> rfl

/-- Something that has happened to a topic. -/
inductive Occurrence (α : Type) where
  /-- There is a new subscriber. -/
  | subscribed (subscriber : Nat)
  /-- A message was published, and so many subscribers were counted. -/
  | published (a : α) (receivers : Nat)
  /-- A subscriber has asked for the next message. -/
  | replied (subscriber : Nat) (reply : Reply α)
  /-- A subscriber has gone. -/
  | left (subscriber : Nat)
  /-- The topic has ended. -/
  | closed
  deriving DecidableEq, Repr

/-- A topic after an operation, and what happens by it. Nothing can be done with a topic that has
ended except by its subscribers, and nothing by a subscriber that has gone. -/
def act (t : Topic α) : Operation α → Option (Topic α × Occurrence α)
  | .subscribe => if t.closed then none else some (t.subscribe.1, .subscribed t.subscribe.2)
  | .publish a => if t.closed then none else some ((t.publish a).1, .published a (t.publish a).2)
  | .next n => (t.place? n).map fun _ =>
      ((t.receive n).1, .replied n (.of true (t.receive n).2))
  | .tryNext n => (t.place? n).map fun _ =>
      ((t.receive n).1, .replied n (.of false (t.receive n).2))
  | .unsubscribe n => (t.place? n).map fun _ => (t.unsubscribe n, .left n)
  | .close => if t.closed then none else some (t.close, .closed)

/-- A topic after several operations, and what happens by them. -/
def actAll (t : Topic α) : List (Operation α) → Option (Topic α × List (Occurrence α))
  | [] => some (t, [])
  | op :: ops => (t.act op).bind fun (t', e) => (t'.actAll ops).map fun (t'', log) =>
      (t'', e :: log)

/-- A topic that was created with a capacity, after any operations, and the log of them. -/
inductive Observed (capacity : Nat) : Topic α → List (Occurrence α) → Prop
  | created : Observed capacity (create capacity) []
  | acted {t t' : Topic α} {log : List (Occurrence α)} {op : Operation α} {e : Occurrence α}
      (h : Observed capacity t log) (hAct : t.act op = some (t', e)) :
      Observed capacity t' (log ++ [e])

/-- An observation is carried through a list of operations by induction on the list, one step
lemma for each operation. -/
theorem Observed.actAll {capacity : Nat} {t t' : Topic α} {log more : List (Occurrence α)}
    {ops : List (Operation α)} (h : Observed capacity t log)
    (hActs : t.actAll ops = some (t', more)) : Observed capacity t' (log ++ more) := by
  induction ops generalizing t log more with
  | nil =>
    cases hActs
    rwa [List.append_nil]
  | cons op ops ih =>
    obtain ⟨⟨t₁, e⟩, hAct, hRest⟩ := Option.bind_eq_some_iff.mp hActs
    obtain ⟨⟨t₂, rest⟩, hActs', hEq⟩ := Option.map_eq_some_iff.mp hRest
    cases hEq
    have hAll := ih (h.acted hAct) hActs'
    rwa [List.append_assoc] at hAll

/-- Every occurrence of a log is by an operation on the topic as it was by then. -/
theorem Observed.exists_act {capacity : Nat} {t : Topic α} {before after : List (Occurrence α)}
    {e : Occurrence α} (h : Observed capacity t (before ++ e :: after)) :
    ∃ t₀ t₁ op, Observed capacity t₀ before ∧ t₀.act op = some (t₁, e) ∧
      Observed capacity t₁ (before ++ [e]) := by
  generalize hLog : before ++ e :: after = log at h
  induction h generalizing after with
  | created => exact absurd hLog (by simp)
  | @acted t₀ t₁ log op e' h hAct ih =>
    rcases concat_eq_append_cons_iff.mp hLog.symm with ⟨rfl, rfl, rfl⟩ | ⟨rest, hBefore, rfl⟩
    · exact ⟨t₀, t₁, op, h, hAct, h.acted hAct⟩
    · exact ih hBefore.symm

end Operations

/-! ## What a log says -/

section Logs

variable {α : Type}

/-- The subscribers that have come. -/
def comers (log : List (Occurrence α)) : List Nat :=
  log.filterMap fun
    | .subscribed n => some n
    | _ => none

/-- The subscribers that have gone. -/
def leavers (log : List (Occurrence α)) : List Nat :=
  log.filterMap fun
    | .left n => some n
    | _ => none

/-- The subscribers that are live: they have come and not gone. -/
def audience (log : List (Occurrence α)) : List Nat :=
  (comers log).filter (· ∉ leavers log)

/-- The replies to a subscriber. -/
def repliesTo (n : Nat) (log : List (Occurrence α)) : List (Reply α) :=
  log.filterMap fun
    | .replied m reply => if m = n then some reply else none
    | _ => none

/-- The messages that a subscriber has received. -/
def receivedBy (n : Nat) (log : List (Occurrence α)) : List α :=
  (repliesTo n log).filterMap Reply.message?

/-- Whatever happened after a subscriber came. -/
def since (n : Nat) : List (Occurrence α) → List (Occurrence α)
  | [] => []
  | .subscribed m :: log => if m = n then log else since n log
  | _ :: log => since n log

/-- What concerns a subscriber: the messages that are published, the times when it asks for the next
one, waiting or not, and the end. -/
inductive Concern (α : Type) where
  | published (a : α)
  | asked (waits : Bool)
  | closed
  deriving DecidableEq, Repr

/-- The message that was published. -/
def Occurrence.message? : Occurrence α → Option α
  | .published a _ => some a
  | _ => none

/-- What concerns a subscriber of an occurrence. -/
def Occurrence.concern (n : Nat) : Occurrence α → Option (Concern α)
  | .published a _ => some (.published a)
  | .replied m reply => if m = n then some (.asked reply.waits) else none
  | .closed => some .closed
  | _ => none

/-- What concerns a subscriber of a log. -/
def concerns (n : Nat) (log : List (Occurrence α)) : List (Concern α) :=
  (since n log).filterMap (Occurrence.concern n)

/-- What a subscriber has seen, going by the messages alone. -/
structure Reader (α : Type) where
  /-- The messages published since it subscribed. -/
  published : List α := []
  /-- Which of them it has received: their positions, in the order of receipt. -/
  positions : List Nat := []
  /-- What it was told. -/
  replies : List (Reply α) := []
  /-- Whether the topic has ended. -/
  closed : Bool := false

namespace Reader

/-- The position after that of the last message received. -/
def next (r : Reader α) : Nat := (r.positions.getLast?.map (· + 1)).getD 0

/-- The position of the message to be received next: the earliest one after the last that is among
so many newest. -/
def due? (keeps : Nat) (r : Reader α) : Option Nat :=
  (List.range r.published.length).find? fun i => r.next ≤ i ∧ r.published.length ≤ i + keeps

/-- What is to be found next. -/
def finds (keeps : Nat) (r : Reader α) : Receipt α :=
  match (r.due? keeps).bind (r.published[·]?) with
  | some a => .message a
  | none => if r.closed then .ended else .pending

/-- What a subscriber has seen after one more thing that concerns it. -/
def follow (keeps : Nat) (r : Reader α) : Concern α → Reader α
  | .published a => { r with published := r.published ++ [a] }
  | .asked waits => { r with
      positions := r.positions ++ (r.due? keeps).toList
      replies := r.replies ++ [.of waits (r.finds keeps)] }
  | .closed => { r with closed := true }

/-- The messages that are to be received next, one after the other, if no more are published. -/
def ahead (keeps : Nat) (r : Reader α) : List α :=
  r.published.drop (max r.next (r.published.length - keeps))

end Reader

/-- A subscriber that has seen what a log says. -/
def reader (keeps n : Nat) (log : List (Occurrence α)) : Reader α :=
  (concerns n log).foldl (Reader.follow keeps) {}

end Logs

/-! ## Readers -/

section Readers

variable {α : Type} {keeps n : Nat} {log : List (Occurrence α)} {r : Reader α}

namespace Reader

@[simp]
theorem follow_closed (r : Reader α) : r.follow keeps .closed = { r with closed := true } := rfl

/-- A reply read at position `i` moves the reader to the position after it. -/
theorem next_concat (r : Reader α) (i : Nat) (replies : List (Reply α)) :
    { r with positions := r.positions ++ [i], replies }.next = i + 1 := by
  rw [next, List.getLast?_append]
  rfl

/-- As long as the newest message is kept, there is one to be received unless the last was. -/
theorem due?_eq (hKeeps : 0 < keeps) (r : Reader α) :
    r.due? keeps = if r.next < r.published.length
      then some (max r.next (r.published.length - keeps)) else none := by
  split
  · next hLt =>
    -- the first position that is neither behind the reader nor dropped from the front
    rw [due?, List.find?_range_eq_some]
    refine ⟨by simp only [decide_eq_true_eq]; omega, List.mem_range.mpr (by omega),
      fun j hj => ?_⟩
    simp only [Bool.not_eq_eq_eq_not, Bool.not_true, decide_eq_false_iff_not]
    omega
  · next hGe =>
    rw [due?, List.find?_eq_none]
    intro i hi
    have hLt := List.mem_range.mp hi
    simp only [decide_eq_true_eq]
    omega

/-- What is found next is the first of what is ahead. -/
theorem finds_eq (hKeeps : 0 < keeps) (r : Reader α) :
    r.finds keeps = match (r.ahead keeps).head? with
      | some a => .message a
      | none => if r.closed then .ended else .pending := by
  have hHead : (r.due? keeps).bind (r.published[·]?) = (r.ahead keeps).head? := by
    rw [due?_eq hKeeps, ahead, List.head?_drop]
    split
    · rfl
    · next hGe => exact (List.getElem?_eq_none (by omega)).symm
  rw [finds, hHead]

/-- Whoever has not received the newest message receives the one that is due. -/
theorem exists_follow_asked (hKeeps : 0 < keeps) (hLt : r.next < r.published.length)
    (waits : Bool) : ∃ a, r.published[max r.next (r.published.length - keeps)]? = some a ∧
      r.follow keeps (.asked waits) = { r with
        positions := r.positions ++ [max r.next (r.published.length - keeps)]
        replies := r.replies ++ [.of waits (.message a)] } := by
  have hDue : max r.next (r.published.length - keeps) < r.published.length := by omega
  refine ⟨_, List.getElem?_eq_getElem hDue, ?_⟩
  simp only [follow, finds, due?_eq hKeeps, if_pos hLt, Option.toList_some, Option.bind_some,
    List.getElem?_eq_getElem hDue]

/-- Whoever has received the newest message is told that there is none. -/
theorem follow_asked_of_le (hKeeps : 0 < keeps) (hLe : r.published.length ≤ r.next)
    (waits : Bool) : r.follow keeps (.asked waits) = { r with
      replies := r.replies ++ [.of waits (if r.closed then .ended else .pending)] } := by
  have hNone : r.due? keeps = none := by rw [due?_eq hKeeps, if_neg (Nat.not_lt.mpr hLe)]
  simp only [follow, finds, hNone, Option.toList_none, List.append_nil, Option.bind_none]

/-- Whoever asks receives the first of what is ahead. -/
theorem ahead_asked (hKeeps : 0 < keeps) (r : Reader α) (waits : Bool) :
    (r.follow keeps (.asked waits)).ahead keeps = (r.ahead keeps).tail := by
  rcases Nat.lt_or_ge r.next r.published.length with hLt | hGe
  · obtain ⟨a, -, hFollow⟩ := exists_follow_asked hKeeps hLt waits
    rw [hFollow, ahead, ahead, next_concat, List.tail_drop]
    congr 1
    dsimp only
    omega
  · have hNone : r.ahead keeps = [] := by
      rw [ahead, List.drop_eq_nil_iff]
      omega
    rw [follow_asked_of_le hKeeps hGe, hNone]
    exact hNone

/-- A message that is published is ahead of the subscriber, and the oldest makes room for it. -/
theorem ahead_published (hNext : r.next ≤ r.published.length) (a : α) :
    (r.follow keeps (.published a)).ahead keeps = newest keeps (r.ahead keeps ++ [a]) := by
  show (r.published ++ [a]).drop (max r.next ((r.published ++ [a]).length - keeps)) = _
  have hDue : max r.next (r.published.length - keeps) ≤ r.published.length := by omega
  rw [ahead, ← List.drop_append_of_le_length hDue, newest, List.drop_drop]
  simp only [List.length_drop, List.length_append, List.length_singleton]
  congr 1
  omega

/-- What is always true of a reader: it has received some of the messages published, in order. -/
structure Sound (r : Reader α) : Prop where
  next_le  : r.next ≤ r.published.length
  below    : ∀ i ∈ r.positions, i < r.next
  ordered  : r.positions.Pairwise (· < ·)
  received : (r.replies.filterMap Reply.message?).map some = r.positions.map (r.published[·]?)

/-- Reading the message at a position no reply has used yet keeps the replies in order and free
of duplicates. -/
theorem Sound.received_at {d : Nat} {a : α} (h : r.Sound) (hNext : r.next ≤ d)
    (hGet : r.published[d]? = some a) (waits : Bool) :
    Sound { r with
      positions := r.positions ++ [d]
      replies := r.replies ++ [.of waits (.message a)] } := by
  have hAfter := next_concat r d (r.replies ++ [.of waits (.message a)])
  obtain ⟨hLt, -⟩ := List.getElem?_eq_some_iff.mp hGet
  -- the new position is the last, and is above those before it
  refine ⟨hAfter ▸ hLt, fun i hi => ?_, ?_, ?_⟩
  · rw [hAfter]
    rcases List.mem_append.mp hi with hBefore | hLast
    · have hBelow := h.below i hBefore
      omega
    · rw [List.mem_singleton.mp hLast]
      exact Nat.lt_succ_self d
  · refine List.pairwise_append.mpr ⟨h.ordered, List.pairwise_singleton _ _, fun i hi j hj => ?_⟩
    have hBelow := h.below i hi
    rw [List.mem_singleton.mp hj]
    omega
  · simp [h.received, hGet, Receipt.message?]

/-- A reply without a message leaves the positions read as they are. -/
theorem Sound.told {found : Receipt α} (h : r.Sound) (hNone : found.message? = none)
    (waits : Bool) : Sound { r with replies := r.replies ++ [.of waits found] } := by
  refine ⟨h.next_le, h.below, h.ordered, ?_⟩
  rw [List.filterMap_append, List.map_append, h.received]
  simp [hNone]

/-- What a publication, a question or a close does to a reader keeps its replies explained. -/
theorem Sound.follow (hKeeps : 0 < keeps) (h : r.Sound) (c : Concern α) :
    (r.follow keeps c).Sound := by
  cases c with
  | published a =>
    refine ⟨?_, h.below, h.ordered, h.received.trans (List.map_congr_left fun i hi => ?_)⟩
    · show r.next ≤ (r.published ++ [a]).length
      rw [List.length_append]
      exact Nat.le_add_right_of_le h.next_le
    · exact (List.getElem?_append_left (Nat.lt_of_lt_of_le (h.below i hi) h.next_le)).symm
  | closed => exact ⟨h.next_le, h.below, h.ordered, h.received⟩
  -- only what is asked for moves the reader, and only if something is there
  | asked waits =>
    rcases Nat.lt_or_ge r.next r.published.length with hLt | hGe
    · obtain ⟨a, hGet, hFollow⟩ := exists_follow_asked hKeeps hLt waits
      rw [hFollow]
      exact h.received_at (Nat.le_max_left _ _) hGet waits
    · rw [follow_asked_of_le hKeeps hGe]
      exact h.told (by split <;> rfl) waits

/-- Once nothing more is published, what is ahead is received before the end is reported. -/
theorem replies_asked (hKeeps : 0 < keeps) (hClosed : r.closed = true) {asks : List Bool} {m : Nat}
    (hm : asks.length ≤ m) :
    ((asks.map Concern.asked).foldl (follow keeps) r).replies = r.replies ++
      List.zipWith Reply.of asks ((r.ahead keeps).map .message ++ List.replicate m .ended) := by
  induction asks generalizing r m with
  | nil => simp
  | cons waits asks ih =>
    have hAhead := ahead_asked hKeeps r waits
    have hFinds := finds_eq hKeeps r
    rw [List.length_cons] at hm
    rw [List.map_cons, List.foldl_cons]
    have hReplies : (r.follow keeps (.asked waits)).replies =
        r.replies ++ [.of waits (r.finds keeps)] := rfl
    cases hList : r.ahead keeps with
    -- nothing is ahead: this question takes one of the ends that are to be reported
    | nil =>
      rw [hList] at hAhead hFinds
      obtain ⟨m, rfl⟩ := Nat.exists_eq_add_of_le' hm
      rw [ih (r := r.follow keeps (.asked waits)) hClosed (m := asks.length + m) (by omega), hAhead,
        hReplies, hFinds, hClosed]
      rw [show m + (asks.length + 1) = asks.length + m + 1 by omega]
      simp [List.replicate_succ]
    -- otherwise it takes the first message that is ahead
    | cons a rest =>
      rw [hList] at hAhead hFinds
      rw [ih (r := r.follow keeps (.asked waits)) hClosed (m := m) (by omega), hAhead, hReplies,
        hFinds]
      simp

end Reader

/-! ### The reader of a log -/

/-- Once a reader has subscribed, what happens later is all part of what it could see. -/
theorem since_append_of_mem {more : List (Occurrence α)} (h : .subscribed n ∈ log) :
    since n (log ++ more) = since n log ++ more := by
  induction log with
  | nil => cases h
  | cons e log ih =>
    rcases List.mem_cons.mp h with rfl | hMem
    · simp [since]
    · cases e with
      | subscribed m =>
        rw [List.cons_append, since, since]
        split
        · rfl
        · exact ih hMem
      | _ => exact ih hMem

/-- A reader that never subscribed has seen nothing. -/
theorem since_of_not_mem (h : .subscribed n ∉ log) : since n log = [] := by
  induction log with
  | nil => rfl
  | cons e log ih =>
    have hRest := ih fun hMem => h (List.mem_cons_of_mem e hMem)
    cases e with
    | subscribed m =>
      have hNe : m ≠ n := fun hEq => h (hEq ▸ List.mem_cons_self)
      rw [since, if_neg hNe, hRest]
    | _ => exact hRest

theorem since_concat_of_not_mem {e : Occurrence α} (h : .subscribed n ∉ log) :
    since n (log ++ [e]) = [] := by
  -- nobody has come under this number before, so there is nothing to be read from then on
  induction log with
  | nil =>
    cases e with
    | subscribed m =>
      rw [List.nil_append, since]
      split <;> rfl
    | _ => rfl
  | cons e' log ih =>
    have hRest := ih fun hMem => h (List.mem_cons_of_mem e' hMem)
    cases e' with
    | subscribed m =>
      have hNe : m ≠ n := fun hEq => h (hEq ▸ List.mem_cons_self)
      rw [List.cons_append, since, if_neg hNe, hRest]
    | _ => exact hRest

/-- After its subscription a reader is concerned by each later event on its own account. -/
theorem concerns_append_of_mem {more : List (Occurrence α)} (h : .subscribed n ∈ log) :
    concerns n (log ++ more) = concerns n log ++ more.filterMap (Occurrence.concern n) := by
  rw [concerns, since_append_of_mem h, List.filterMap_append, concerns]

theorem reader_of_not_mem (h : .subscribed n ∉ log) : reader keeps n log = {} := by
  rw [reader, concerns, since_of_not_mem h]
  rfl

/-- The reader of a longer log follows the later events from the state it was in. -/
theorem reader_append_of_mem {more : List (Occurrence α)} (h : .subscribed n ∈ log) :
    reader keeps n (log ++ more) =
      (more.filterMap (Occurrence.concern n)).foldl (Reader.follow keeps) (reader keeps n log) := by
  rw [reader, concerns_append_of_mem h, List.foldl_append, reader]

/-- One more event moves a subscribed reader by one step, or not at all when it is addressed to
somebody else. -/
theorem reader_concat_of_mem (h : .subscribed n ∈ log) (e : Occurrence α) :
    reader keeps n (log ++ [e]) = match e.concern n with
      | some c => (reader keeps n log).follow keeps c
      | none => reader keeps n log := by
  rw [reader_append_of_mem h]
  cases hConcern : e.concern n with
  | none => simp [hConcern]
  | some c => simp [hConcern]

theorem reader_concat_of_not_mem (h : .subscribed n ∉ log) (e : Occurrence α) :
    reader keeps n (log ++ [e]) = {} := by
  rw [reader, concerns, since_concat_of_not_mem h]
  rfl

/-- A reader is new, or has seen one more thing that concerns it, or nothing that does. -/
theorem reader_concat (keeps n : Nat) (log : List (Occurrence α)) (e : Occurrence α) :
    reader keeps n (log ++ [e]) = {} ∨ reader keeps n (log ++ [e]) = reader keeps n log ∨
      ∃ c, reader keeps n (log ++ [e]) = (reader keeps n log).follow keeps c := by
  by_cases hMem : .subscribed n ∈ log
  · have hConcat : reader keeps n (log ++ [e]) = _ := reader_concat_of_mem hMem e
    cases hConcern : e.concern n with
    | none => exact .inr (.inl (by rw [hConcat, hConcern]))
    | some c => exact .inr (.inr ⟨c, by rw [hConcat, hConcern]⟩)
  · exact .inl (reader_concat_of_not_mem hMem e)

/-- A reader's record of publications is the messages published since it subscribed. -/
theorem published_reader (keeps n : Nat) (log : List (Occurrence α)) :
    (reader keeps n log).published = (since n log).filterMap Occurrence.message? := by
  induction log using List.reverseRecOn with
  | nil => rfl
  | append_singleton log e ih =>
    by_cases hMem : .subscribed n ∈ log
    · rw [reader_concat_of_mem hMem, since_append_of_mem hMem, List.filterMap_append, ← ih]
      cases e with
      | replied m reply =>
        by_cases hEq : m = n <;> simp [Occurrence.concern, Occurrence.message?, hEq, Reader.follow]
      | _ => simp [Occurrence.concern, Occurrence.message?, Reader.follow]
    · rw [reader_concat_of_not_mem hMem, since_concat_of_not_mem hMem]
      rfl

/-- Every reader's replies are explained by its publications: the invariant of `follow` over the
log. -/
theorem sound_reader (hKeeps : 0 < keeps) (n : Nat) (log : List (Occurrence α)) :
    (reader keeps n log).Sound := by
  have hNew : ({} : Reader α).Sound :=
    ⟨Nat.le_refl 0, fun i hi => absurd hi (by simp), List.Pairwise.nil, rfl⟩
  induction log using List.reverseRecOn with
  | nil => exact hNew
  | append_singleton log e ih =>
    obtain hEq | hEq | ⟨c, hEq⟩ := reader_concat keeps n log e
    · exact hEq ▸ hNew
    · exact hEq ▸ ih
    · exact hEq ▸ ih.follow hKeeps c

/-- A message that was passed over was not among the newest any more when it might have been
received. -/
theorem exists_overtaken (hKeeps : 0 < keeps) {i : Nat} (hPassed : i < (reader keeps n log).next)
    (hMissed : i ∉ (reader keeps n log).positions) :
    ∃ before, before <+: log ∧ (reader keeps n before).next ≤ i ∧
      i + keeps < (reader keeps n before).published.length := by
  induction log using List.reverseRecOn with
  | nil => exact absurd hPassed (Nat.not_lt_zero i)
  | append_singleton log e ih =>
    have hExtend : (∃ before, before <+: log ∧ (reader keeps n before).next ≤ i ∧
        i + keeps < (reader keeps n before).published.length) →
        ∃ before, before <+: log ++ [e] ∧ (reader keeps n before).next ≤ i ∧
          i + keeps < (reader keeps n before).published.length :=
      fun ⟨before, hBefore, hRest⟩ => ⟨before, hBefore.trans (List.prefix_append _ _), hRest⟩
    obtain hEq | hEq | ⟨c, hEq⟩ := reader_concat keeps n log e
    · rw [hEq] at hPassed
      exact absurd hPassed (Nat.not_lt_zero i)
    · rw [hEq] at hPassed hMissed
      exact hExtend (ih hPassed hMissed)
    · rw [hEq] at hPassed hMissed
      cases c with
      | asked waits =>
        rcases Nat.lt_or_ge (reader keeps n log).next (reader keeps n log).published.length
          with hLt | hGe
        -- unless it is passed over just now, it has been before
        · obtain ⟨a, -, hFollow⟩ := Reader.exists_follow_asked hKeeps hLt waits
          rw [hFollow] at hPassed hMissed
          rw [Reader.next_concat] at hPassed
          simp only [List.mem_append, List.mem_singleton, not_or] at hMissed
          rcases Nat.lt_or_ge i (reader keeps n log).next with hBefore | hFrom
          · exact hExtend (ih hBefore hMissed.1)
          · exact ⟨log, List.prefix_append _ _, hFrom, by omega⟩
        · rw [Reader.follow_asked_of_le hKeeps hGe] at hPassed hMissed
          exact hExtend (ih hPassed hMissed)
      | _ => exact hExtend (ih hPassed hMissed)

/-- A subscriber that is never further behind than there are slots has received everything up to
the last. -/
theorem positions_eq_range (hKeeps : 0 < keeps)
    (hNear : ∀ before, before <+: log →
      (reader keeps n before).published.length ≤ (reader keeps n before).next + keeps) :
    (reader keeps n log).positions = List.range (reader keeps n log).next := by
  have hSound := sound_reader hKeeps n log
  refine List.Perm.eq_of_pairwise (fun a b _ _ hab hba => ?_) hSound.ordered
    List.pairwise_lt_range ?_
  · omega
  · refine (List.perm_ext_iff_of_nodup (hSound.ordered.imp fun h => Nat.ne_of_lt h)
      List.nodup_range).mpr fun i => ?_
    rw [List.mem_range]
    refine ⟨hSound.below i, fun hPassed => ?_⟩
    by_contra hMissed
    obtain ⟨before, hBefore, hNext, hOver⟩ := exists_overtaken hKeeps hPassed hMissed
    have hLe := hNear before hBefore
    omega

/-- The messages at the first so many positions. -/
theorem map_range_getElem? {l : List α} {k : Nat} (hk : k ≤ l.length) :
    (List.range k).map (l[·]?) = (l.take k).map some := by
  induction k with
  | zero => rfl
  | succ k ih =>
    rw [List.range_succ, List.map_append, ih (by omega), List.take_succ_eq_append_getElem hk,
      List.map_append, List.map_singleton, List.getElem?_eq_getElem hk, List.map_singleton]

end Readers

/-! ## Topics and their readers -/

section Tracking

variable {α : Type} {t t' : Topic α} {n m capacity : Nat} {log : List (Occurrence α)}
  {e : Occurrence α} {r : Reader α}

/-- What an operation does, by what happens. -/
inductive Acts (t : Topic α) : Topic α → Occurrence α → Prop
  | subscribed (hOpen : t.closed = false) : Acts t t.subscribe.1 (.subscribed t.places.length)
  | published (hOpen : t.closed = false) (a : α) :
      Acts t (t.publish a).1 (.published a (t.publish a).2)
  | replied {n place : Nat} (hPlace : t.place? n = some place) (waits : Bool) :
      Acts t (t.receive n).1 (.replied n (.of waits (t.receive n).2))
  | left {n place : Nat} (hPlace : t.place? n = some place) : Acts t (t.unsubscribe n) (.left n)
  | closed (hOpen : t.closed = false) : Acts t t.close .closed

/-- Inversion of `act`: which operations can be carried out at all, and what each one leaves. -/
theorem acts_of_act {op : Operation α} (h : t.act op = some (t', e)) : Acts t t' e := by
  cases op with
  -- these are refused once the topic is closed
  | subscribe | publish a | close =>
    simp only [act] at h
    split at h
    · cases h
    · next hClosed =>
      cases h
      have hOpen : t.closed = false := by simpa using hClosed
      first
        | exact .subscribed hOpen
        | exact .published hOpen _
        | exact .closed hOpen
  -- these are for subscribers that are there
  | next n | tryNext n | unsubscribe n =>
    obtain ⟨place, hPlace, hEq⟩ := Option.map_eq_some_iff.mp h
    cases hEq
    first
      | exact .replied hPlace _
      | exact .left hPlace

/-! ### Places -/

theorem lt_length_of_place? {place : Nat} (h : t.place? n = some place) : n < t.places.length := by
  by_contra hGe
  rw [place?, List.getElem?_eq_none (by omega)] at h
  cases h

/-- Moving one subscriber leaves every other one where it is. -/
theorem place?_set_ne (hNe : m ≠ n) (o : Option Nat) :
    { t with places := t.places.set m o }.place? n = t.place? n := by
  rw [place?, List.getElem?_set_ne hNe, place?]

theorem place?_set_none (n : Nat) : (t.unsubscribe n).place? n = none := by
  rw [place?, unsubscribe, List.getElem?_set]
  split
  · split <;> rfl
  · next hNe => exact absurd rfl hNe

/-- A new subscriber starts at the next message to be published. -/
theorem place?_subscribe (t : Topic α) (n : Nat) :
    t.subscribe.1.place? n = if n = t.places.length then some t.sent else t.place? n := by
  show ((t.places ++ [some t.sent])[n]?).join = _
  split
  · next hEq =>
    rw [hEq, List.getElem?_concat_length]
    rfl
  · next hNe =>
    rw [place?, List.getElem?_append]
    split
    · rfl
    · rw [List.getElem?_eq_none (l := t.places) (by omega), List.getElem?_eq_none (by simp; omega)]

theorem subscribers_eq_countP (t : Topic α) : t.subscribers = t.places.countP Option.isSome :=
  List.countP_eq_length_filter.symm

/-- Replacing a live place changes the count of subscribers only when it is cleared. -/
theorem subscribers_set {place : Nat} (hPlace : t.place? n = some place) (o : Option Nat) :
    { t with places := t.places.set n o }.subscribers + 1 =
      t.subscribers + if o.isSome then 1 else 0 := by
  have hLt := lt_length_of_place? hPlace
  have hGet : t.places[n] = some place := by
    rw [place?, List.getElem?_eq_getElem hLt] at hPlace
    exact hPlace
  have hPos : 0 < t.places.countP Option.isSome :=
    List.countP_pos_iff.mpr ⟨_, List.getElem_mem hLt, by rw [hGet]; rfl⟩
  rw [subscribers_eq_countP, subscribers_eq_countP, List.countP_set hLt, hGet]
  simp only [Option.isSome_some, if_true]
  omega

/-- A receipt moves the place of the subscriber, if anything. -/
theorem receive_fst (t : Topic α) (n : Nat) :
    (t.receive n).1 = t ∨ ∃ place, t.place? n = some place ∧
      ∃ next, (t.receive n).1 = { t with places := t.places.set n (some next) } := by
  rw [receive]
  split
  · exact .inl rfl
  · next place hPlace =>
    split
    · exact .inr ⟨place, hPlace, _, rfl⟩
    · exact .inl rfl

/-! ### What is unread and what is ahead -/

/-- A live subscriber has still to receive what is ahead of its reader. -/
structure Reads (t : Topic α) (n : Nat) (r : Reader α) : Prop where
  serves : t.Serves n
  unread : t.unread n = r.ahead t.slots
  closed : r.closed = t.closed

/-- A topic that keeps the same messages and the same place serves a reader as before. -/
theorem Reads.congr (h : Reads t n r) (hPlace : t'.place? n = t.place? n) (hKept : t'.kept = t.kept)
    (hSent : t'.sent = t.sent) (hSlots : t'.slots = t.slots) (hClosed : t'.closed = t.closed) :
    Reads t' n r where
  serves := by
    refine ⟨?_, ?_, ?_⟩
    · rw [hPlace, hSent]
      exact h.serves.place
    · rw [hKept, hSent]
      exact h.serves.sent
    · rw [hKept, hSlots]
      exact h.serves.room
  unread := by
    rw [hSlots, ← h.unread, Topic.unread, Topic.unread, hPlace, dropped, dropped, hKept, hSent]
  closed := hClosed ▸ h.closed

/-- Publishing to a reader that has somebody listening is what `follow` does with the message. -/
theorem Reads.publish (h : Reads t n r) (hNext : r.next ≤ r.published.length) (a : α) :
    Reads (t.publish a).1 n (r.follow t.slots (.published a)) where
  serves := h.serves.publish a
  unread := by
    have hSlots : (t.publish a).1.slots = t.slots := by rw [publish_eq h.serves]
    rw [unread_publish_newest h.serves, hSlots, h.unread, Reader.ahead_published hNext]
  closed := by
    rw [publish_eq h.serves]
    exact h.closed

/-- When nothing is unread, nothing is received, and the topic stays as it is. -/
theorem receive_of_unread_nil (h : t.Serves n) (hUnread : t.unread n = []) :
    t.receive n = (t, if t.closed then .ended else .pending) := by
  obtain ⟨place, hPlace, -⟩ := h.place
  rw [unread, hPlace] at hUnread
  have hGone : t.kept.length ≤ place - t.dropped := List.drop_eq_nil_iff.mp hUnread
  have hNone : t.messageFrom place = none := by
    rw [messageFrom, Option.map_eq_none_iff, List.getElem?_eq_none_iff]
    omega
  rw [receive, hPlace]
  simp only [hNone]

/-- A receipt gives what the reader is to find. -/
theorem Reads.finds (h : Reads t n r) (hSlots : 0 < t.slots) :
    (t.receive n).2 = r.finds t.slots := by
  rw [Reader.finds_eq hSlots, ← h.unread, h.closed]
  cases hUnread : t.unread n with
  | cons a rest =>
    obtain ⟨t', b, hReceive⟩ := exists_receive h.serves (by simp [hUnread])
    have hFirst := (unread_receive h.serves hReceive).1
    rw [hUnread] at hFirst
    rw [hReceive, (List.cons.inj hFirst).1]
    rfl
  | nil => rw [receive_of_unread_nil h.serves hUnread]; rfl

/-- Receiving is what `follow` does with a question: the reader's next kept message, or none. -/
theorem Reads.receive (h : Reads t n r) (hSlots : 0 < t.slots) (waits : Bool) :
    Reads (t.receive n).1 n (r.follow t.slots (.asked waits)) := by
  have hAhead := Reader.ahead_asked hSlots r waits
  rw [← h.unread] at hAhead
  -- the reader gets ahead by one exactly if something is unread
  cases hUnread : t.unread n with
  | cons a rest =>
    obtain ⟨t', b, hReceive⟩ := exists_receive h.serves (by simp [hUnread])
    obtain ⟨hFirst, hServes⟩ := unread_receive h.serves hReceive
    have hFrame : t'.slots = t.slots ∧ t'.closed = t.closed := by
      obtain hEq | ⟨-, -, next, hEq⟩ := receive_fst t n <;> rw [hReceive] at hEq <;> subst hEq <;>
        exact ⟨rfl, rfl⟩
    rw [hFirst, List.tail_cons] at hAhead
    rw [hReceive]
    exact ⟨hServes, by rw [hFrame.1, hAhead], h.closed.trans hFrame.2.symm⟩
  | nil =>
    rw [receive_of_unread_nil h.serves hUnread]
    exact ⟨h.serves, by rw [hAhead, hUnread]; rfl, h.closed⟩

/-! ### A topic and its log -/

/-- The reader of a log has been told what the log says, if it is told what it is to find. -/
theorem replies_concat {keeps : Nat} (hLog : (reader keeps n log).replies = repliesTo n log)
    (hReply : ∀ reply, e = .replied n reply → .subscribed n ∈ log ∧
      ∃ waits, reply = .of waits ((reader keeps n log).finds keeps)) :
    (reader keeps n (log ++ [e])).replies = repliesTo n (log ++ [e]) := by
  have hRepliesTo : repliesTo n (log ++ [e]) = repliesTo n log ++ repliesTo n [e] :=
    List.filterMap_append
  rw [hRepliesTo, ← hLog]
  by_cases hMem : .subscribed n ∈ log
  · rw [reader_concat_of_mem hMem]
    cases e with
    -- only an answer to the reader itself is a reply that it was given
    | replied m reply =>
      by_cases hEq : m = n
      · subst hEq
        obtain ⟨-, waits, rfl⟩ := hReply reply rfl
        simp [Occurrence.concern, Reader.follow, repliesTo]
      · simp [Occurrence.concern, repliesTo, hEq]
    | _ => simp [Occurrence.concern, Reader.follow, repliesTo]
  -- nobody is answered before having subscribed
  · rw [reader_concat_of_not_mem hMem, reader_of_not_mem hMem]
    cases e with
    | replied m reply =>
      have hNe : m ≠ n := fun hEq => hMem (hReply reply (hEq ▸ rfl)).1
      simp [repliesTo, hNe]
    | _ => simp [repliesTo]

/-! ### Who is there -/

theorem leavers_concat (log : List (Occurrence α)) (e : Occurrence α) :
    leavers (log ++ [e]) = leavers log ++ leavers [e] :=
  List.filterMap_append

/-- The audience grows by a subscription that is not already over and shrinks by a departure. -/
theorem audience_concat (log : List (Occurrence α)) (e : Occurrence α) :
    audience (log ++ [e]) = match e with
      | .subscribed n => audience log ++ [n].filter (· ∉ leavers log)
      | .left n => (audience log).filter (· ≠ n)
      | _ => audience log := by
  have hComers : comers (log ++ [e]) = comers log ++ comers [e] := List.filterMap_append
  rw [audience, hComers, leavers_concat]
  cases e with
  | left n => simp [comers, leavers, audience, List.filter_filter, Bool.and_comm]
  | _ => simp [comers, leavers, audience, List.filter_append]

/-- The subscribers that a topic knows are those of the log, and the live ones are its audience. -/
structure Peopled (t : Topic α) (log : List (Occurrence α)) : Prop where
  known   : ∀ n, .subscribed n ∈ log ↔ n < t.places.length
  gone    : ∀ n ∈ leavers log, n < t.places.length
  live    : ∀ n, n ∈ audience log ↔ (t.place? n).isSome
  nodup   : (audience log).Nodup
  counted : (audience log).length = t.subscribers

/-- A place that is held was taken by a subscription in the log. -/
theorem Peopled.mem_of_live (h : Peopled t log) (hLive : (t.place? n).isSome) :
    .subscribed n ∈ log := by
  obtain ⟨place, hPlace⟩ := Option.isSome_iff_exists.mp hLive
  exact (h.known n).mpr (lt_length_of_place? hPlace)

/-- When nobody comes or goes, the same subscribers are there. -/
theorem Peopled.congr (h : Peopled t log) (hComers : ∀ n, e ≠ .subscribed n)
    (hLeavers : ∀ n, e ≠ .left n) (hLength : t'.places.length = t.places.length)
    (hLive : ∀ n, (t'.place? n).isSome = (t.place? n).isSome)
    (hCount : t'.subscribers = t.subscribers) : Peopled t' (log ++ [e]) := by
  -- an event that nobody comes or goes with changes neither list
  have hAudience : audience (log ++ [e]) = audience log := by
    rw [audience_concat]
    split
    · next n => exact absurd rfl (hComers n)
    · next n => exact absurd rfl (hLeavers n)
    · rfl
  have hGone : leavers (log ++ [e]) = leavers log := by
    rw [leavers_concat]
    cases e with
    | left n => exact absurd rfl (hLeavers n)
    | _ => exact List.append_nil _
  refine ⟨fun n => ?_, ?_, fun n => ?_, hAudience ▸ h.nodup, ?_⟩
  · rw [hLength, ← h.known n, List.mem_append, List.mem_singleton]
    exact ⟨fun hMem => hMem.resolve_right fun hEq => hComers n hEq.symm, .inl⟩
  · rw [hGone, hLength]
    exact h.gone
  · rw [hAudience, hLive]
    exact h.live n
  · rw [hAudience, hCount]
    exact h.counted

/-- Subscribing adds exactly the new number to the audience. -/
theorem Peopled.subscribed (h : Peopled t log) :
    Peopled t.subscribe.1 (log ++ [.subscribed t.places.length]) := by
  have hNew : t.places.length ∉ leavers log := fun hGone => Nat.lt_irrefl _ (h.gone _ hGone)
  have hAudience : audience (log ++ [.subscribed t.places.length]) =
      audience log ++ [t.places.length] := by
    rw [audience_concat]
    simp [hNew]
  have hLength : t.subscribe.1.places.length = t.places.length + 1 := by simp [subscribe]
  -- the newcomer takes the next number, which nobody had and nobody has left
  refine ⟨fun n => ?_, fun n hGone => ?_, fun n => ?_, ?_, ?_⟩
  · rw [hLength, List.mem_append, List.mem_singleton, h.known n, Occurrence.subscribed.injEq]
    omega
  · rw [leavers_concat, List.mem_append] at hGone
    have hLt := h.gone n (hGone.resolve_right (by simp [leavers]))
    omega
  · rw [hAudience, List.mem_append, h.live n, List.mem_singleton, place?_subscribe]
    split
    · next hEq => simp [hEq]
    · next hNe => simp [hNe]
  · rw [hAudience, List.nodup_append]
    refine ⟨h.nodup, List.pairwise_singleton _ _, fun n hn m hm hEq => ?_⟩
    obtain ⟨place, hPlace⟩ := Option.isSome_iff_exists.mp ((h.live n).mp hn)
    have hLt := lt_length_of_place? hPlace
    rw [List.mem_singleton.mp hm] at hEq
    omega
  · rw [hAudience, List.length_append, h.counted]
    simp [subscribers, subscribe]

/-- Leaving takes exactly that number out of the audience. -/
theorem Peopled.left {place : Nat} (h : Peopled t log) (hPlace : t.place? n = some place) :
    Peopled (t.unsubscribe n) (log ++ [.left n]) := by
  have hAudience : audience (log ++ [.left n]) = (audience log).filter (· ≠ n) := audience_concat ..
  have hLength : (t.unsubscribe n).places.length = t.places.length := List.length_set
  refine ⟨fun m => ?_, fun m hGone => ?_, fun m => ?_, hAudience ▸ h.nodup.filter _, ?_⟩
  · rw [hLength, ← h.known m]
    simp
  · rw [leavers_concat, List.mem_append] at hGone
    rw [hLength]
    rcases hGone with hGone | hNow
    · exact h.gone m hGone
    · have hEq : m = n := by simpa [leavers] using hNow
      exact hEq ▸ lt_length_of_place? hPlace
  · rw [hAudience, List.mem_filter, h.live m]
    by_cases hEq : m = n
    · simp [hEq, place?_set_none]
    · have hSame : (t.unsubscribe n).place? m = t.place? m := place?_set_ne (Ne.symm hEq) _
      simp [hEq, hSame]
  -- the one that leaves was counted, and is counted no more
  · have hMem : n ∈ audience log := (h.live n).mpr (Option.isSome_of_eq_some hPlace)
    have hErase : (audience log).filter (· ≠ n) = (audience log).erase n := by
      rw [h.nodup.erase_eq_filter]
      exact List.filter_congr fun m _ => by by_cases hEq : m = n <;> simp [hEq]
    have hCount := subscribers_set hPlace none
    simp only [Option.isSome_none, Bool.false_eq_true, if_false] at hCount
    have hBefore := h.counted
    rw [hAudience, hErase, List.length_erase_of_mem hMem, unsubscribe]
    omega

/-! ### What is told -/

/-- What a topic has in common with the log of what happened to it. -/
structure Tracked (capacity : Nat) (t : Topic α) (log : List (Occurrence α)) : Prop where
  slots   : t.slots = slotsFor capacity
  kept    : t.kept.length = min t.sent t.slots
  people  : Peopled t log
  ended   : t.closed = true ↔ .closed ∈ log
  replies : ∀ n, (reader (slotsFor capacity) n log).replies = repliesTo n log
  reads   : ∀ n, (t.place? n).isSome → Reads t n (reader (slotsFor capacity) n log)

theorem Tracked.slots_pos (h : Tracked capacity t log) : 0 < t.slots :=
  h.slots ▸ slotsFor_pos capacity

/-- A topic that has just been created is tracked by the empty log. -/
theorem tracked_create (capacity : Nat) : Tracked capacity (create capacity : Topic α) [] where
  slots := rfl
  kept := (Nat.zero_min _).symm
  people := ⟨fun n => by simp [create], fun n hGone => absurd hGone (by simp [leavers]),
    fun n => by simp [audience, comers, create, place?], List.nodup_nil, rfl⟩
  ended := by simp [create]
  replies n := rfl
  reads n hLive := absurd hLive (by simp [create, place?])

/-- Step lemma of subscribing: the new reader starts level with the topic, the others keep what
they had. -/
theorem Tracked.subscribed (h : Tracked capacity t log) (hOpen : t.closed = false) :
    Tracked capacity t.subscribe.1 (log ++ [.subscribed t.places.length]) where
  slots := h.slots
  kept := h.kept
  people := h.people.subscribed
  ended := by
    rw [List.mem_append, ← h.ended]
    simp [subscribe]
  replies n := replies_concat (h.replies n) fun reply hEq => by cases hEq
  reads n hLive := by
    rw [place?_subscribe] at hLive
    have hKept := h.kept
    split at hLive
    · next hEq =>
      -- nothing is unread of what was published before
      have hNew : .subscribed n ∉ log := fun hMem => by
        have hLt := (h.people.known n).mp hMem
        omega
      have hPlace : t.subscribe.1.place? n = some t.sent := by rw [place?_subscribe, if_pos hEq]
      rw [reader_concat_of_not_mem hNew]
      refine ⟨⟨⟨_, hPlace, Nat.le_refl _⟩, ?_, ?_⟩, ?_, hOpen.symm⟩
      · show t.kept.length ≤ t.sent
        omega
      · show t.kept.length ≤ t.slots
        omega
      · rw [unread, hPlace]
        show t.kept.drop (t.sent - (t.sent - t.kept.length)) = ([] : List α).drop _
        rw [List.drop_nil, List.drop_eq_nil_iff]
        omega
    · next hNe =>
      rw [reader_concat_of_mem (h.people.mem_of_live hLive)]
      refine (h.reads n hLive).congr ?_ rfl rfl rfl rfl
      rw [place?_subscribe, if_neg hNe]

/-- Step lemma of publishing: with nobody there the message is dropped, else every reader has it
ahead. -/
theorem Tracked.published (h : Tracked capacity t log) (a : α) :
    Tracked capacity (t.publish a).1 (log ++ [.published a (t.publish a).2]) := by
  -- a message takes none of the subscribers' places
  have hFrame : (t.publish a).1.slots = t.slots ∧ (t.publish a).1.places = t.places ∧
      (t.publish a).1.closed = t.closed := by
    rw [publish]
    split <;> exact ⟨rfl, rfl, rfl⟩
  obtain ⟨hSlots, hPlaces, hClosed⟩ := hFrame
  have hPlace : ∀ n, (t.publish a).1.place? n = t.place? n := fun n => by
    rw [place?, hPlaces, place?]
  constructor
  case slots => rw [hSlots, h.slots]
  case kept =>
    have hKept := h.kept
    rw [publish]
    split
    · exact hKept
    · show (newest t.slots (t.kept ++ [a])).length = min (t.sent + 1) t.slots
      rw [newest, List.length_drop, List.length_append, List.length_singleton]
      omega
  case people =>
    refine h.people.congr (fun n hEq => by cases hEq) (fun n hEq => by cases hEq) (by rw [hPlaces])
      (fun n => by rw [hPlace]) ?_
    rw [subscribers, hPlaces, subscribers]
  case ended =>
    rw [hClosed, h.ended]
    simp
  case replies => exact fun n => replies_concat (h.replies n) fun reply hEq => by cases hEq
  case reads =>
    intro n hLive
    rw [hPlace] at hLive
    rw [reader_concat_of_mem (h.people.mem_of_live hLive), ← h.slots]
    have hReads := h.reads n hLive
    rw [← h.slots] at hReads
    exact hReads.publish (sound_reader h.slots_pos n log).next_le a

/-- Step lemma of receiving: only the reader that asked moves. -/
theorem Tracked.replied {place : Nat} (h : Tracked capacity t log)
    (hPlace : t.place? n = some place) (waits : Bool) :
    Tracked capacity (t.receive n).1 (log ++ [.replied n (.of waits (t.receive n).2)]) := by
  have hOwn := h.reads n (Option.isSome_of_eq_some hPlace)
  have hFinds : (t.receive n).2 = (reader (slotsFor capacity) n log).finds (slotsFor capacity) := by
    rw [hOwn.finds h.slots_pos, h.slots]
  have hNext := hOwn.receive h.slots_pos waits
  -- only the place of the subscriber has changed
  have hFrame : (t.receive n).1.slots = t.slots ∧ (t.receive n).1.kept = t.kept ∧
      (t.receive n).1.sent = t.sent ∧ (t.receive n).1.closed = t.closed ∧
      (t.receive n).1.places.length = t.places.length ∧
      (t.receive n).1.subscribers = t.subscribers ∧
      (∀ m, m ≠ n → (t.receive n).1.place? m = t.place? m) := by
    obtain hEq | ⟨-, -, next, hEq⟩ := receive_fst t n <;> rw [hEq]
    · exact ⟨rfl, rfl, rfl, rfl, rfl, rfl, fun _ _ => rfl⟩
    · have hCount := subscribers_set hPlace (some next)
      simp only [Option.isSome_some, if_true] at hCount
      exact ⟨rfl, rfl, rfl, rfl, List.length_set, by omega,
        fun m hNe => place?_set_ne (Ne.symm hNe) _⟩
  obtain ⟨hSlots, hKept, hSent, hClosed, hLength, hCount, hOthers⟩ := hFrame
  have hSome : ∀ m, ((t.receive n).1.place? m).isSome = (t.place? m).isSome := by
    intro m
    by_cases hEq : m = n
    · obtain ⟨place', hPlace', -⟩ := hNext.serves.place
      rw [hEq, hPlace, hPlace']
      rfl
    · rw [hOthers m hEq]
  constructor
  case slots => rw [hSlots, h.slots]
  case kept => rw [hKept, hSent, hSlots, h.kept]
  case people =>
    exact h.people.congr (fun n hEq => by cases hEq) (fun n hEq => by cases hEq) hLength hSome
      hCount
  case ended =>
    rw [hClosed, h.ended]
    simp
  case replies =>
    refine fun m => replies_concat (h.replies m) fun reply hEq => ?_
    cases hEq
    exact ⟨h.people.mem_of_live (Option.isSome_of_eq_some hPlace), waits, by rw [hFinds]⟩
  case reads =>
    intro m hLive
    rw [hSome] at hLive
    rw [reader_concat_of_mem (h.people.mem_of_live hLive)]
    by_cases hEq : n = m
    · subst hEq
      rw [h.slots] at hNext
      simpa [Occurrence.concern] using hNext
    · simp only [Occurrence.concern, if_neg hEq]
      exact (h.reads m hLive).congr (hOthers m (Ne.symm hEq)) hKept hSent hSlots hClosed

/-- Step lemma of leaving: nobody else's view changes. -/
theorem Tracked.left {place : Nat} (h : Tracked capacity t log) (hPlace : t.place? n = some place) :
    Tracked capacity (t.unsubscribe n) (log ++ [.left n]) where
  slots := h.slots
  kept := h.kept
  people := h.people.left hPlace
  ended := by
    rw [List.mem_append, ← h.ended]
    simp [unsubscribe]
  replies m := replies_concat (h.replies m) fun reply hEq => by cases hEq
  reads m hLive := by
    -- whoever is still there is someone else, and reads on as before
    have hNe : m ≠ n := fun hEq => by simp [hEq, place?_set_none] at hLive
    have hSame : (t.unsubscribe n).place? m = t.place? m := place?_set_ne (Ne.symm hNe) _
    rw [hSame] at hLive
    rw [reader_concat_of_mem (h.people.mem_of_live hLive)]
    exact (h.reads m hLive).congr hSame rfl rfl rfl rfl

/-- Step lemma of closing: what is kept stays to be read. -/
theorem Tracked.closed (h : Tracked capacity t log) :
    Tracked capacity t.close (log ++ [.closed]) where
  slots := h.slots
  kept := h.kept
  people := h.people.congr (fun n hEq => by cases hEq) (fun n hEq => by cases hEq) rfl
    (fun _ => rfl) rfl
  ended := by simp [close]
  replies n := replies_concat (h.replies n) fun reply hEq => by cases hEq
  reads n hLive := by
    have hReads := h.reads n hLive
    rw [reader_concat_of_mem (h.people.mem_of_live hLive)]
    exact ⟨⟨hReads.serves.place, hReads.serves.sent, hReads.serves.room⟩, hReads.unread, rfl⟩

/-- The step lemmas together: every event of the topic keeps it tracked. -/
theorem Tracked.acts (h : Tracked capacity t log) (hActs : Acts t t' e) :
    Tracked capacity t' (log ++ [e]) := by
  cases hActs with
  | subscribed hOpen => exact h.subscribed hOpen
  | published _ a => exact h.published a
  | replied hPlace waits => exact h.replied hPlace waits
  | left hPlace => exact h.left hPlace
  | closed => exact h.closed

/-- Whatever is done with a topic, it and its log have in common what they should. -/
theorem Observed.tracked (h : Observed capacity t log) : Tracked capacity t log := by
  induction h with
  | created => exact tracked_create capacity
  | acted _ hAct ih => exact ih.acts (acts_of_act hAct)

end Tracking

/-! ## Receipts as repeated attempts -/

section Attempts

variable {α : Type} {t t' : Topic α} {n capacity : Nat} {log : List (Occurrence α)}

/-- What a subscriber finds at its place. -/
inductive Attempt (α : Type) where
  | message (a : α)
  /-- The message at its place is gone, with so many others. -/
  | lagged (skipped : Nat)
  | empty
  | closed

/-- One attempt of a subscriber to receive. When the message at its place is gone, its place becomes
that of the oldest message that is kept. -/
def attempt (t : Topic α) (subscriber : Nat) : Topic α × Attempt α :=
  match t.place? subscriber with
  | none => (t, .closed)
  | some place =>
    if place < t.dropped then
      ({ t with places := t.places.set subscriber (some t.dropped) }, .lagged (t.dropped - place))
    else
      match t.kept[place - t.dropped]? with
      | some a => ({ t with places := t.places.set subscriber (some (place + 1)) }, .message a)
      | none => (t, if t.closed then .closed else .empty)

/-- What `next` and `try_next` find, which try again whenever they lag. -/
inductive Retried (subscriber : Nat) : Topic α → Topic α × Receipt α → Prop
  | message {t t' : Topic α} {a : α} (h : t.attempt subscriber = (t', .message a)) :
      Retried subscriber t (t', .message a)
  | empty {t t' : Topic α} (h : t.attempt subscriber = (t', .empty)) :
      Retried subscriber t (t', .pending)
  | closed {t t' : Topic α} (h : t.attempt subscriber = (t', .closed)) :
      Retried subscriber t (t', .ended)
  | lagged {t t' : Topic α} {skipped : Nat} {found : Topic α × Receipt α}
      (h : t.attempt subscriber = (t', .lagged skipped)) (hAgain : Retried subscriber t' found) :
      Retried subscriber t found

theorem receive_of_getElem? {place : Nat} {a : α} (hPlace : t.place? n = some place)
    (hGet : t.kept[place - t.dropped]? = some a) :
    t.receive n = ({ t with places := t.places.set n (some (max place t.dropped + 1)) },
      .message a) := by
  have hIndex : max place t.dropped - t.dropped = place - t.dropped := by omega
  rw [receive, hPlace]
  simp only [messageFrom, hIndex, hGet, Option.map_some]

/-- A subscriber that doesn't lag finds what it is to receive at the first attempt. -/
theorem retried_of_attempt {place : Nat} (hPlace : t.place? n = some place)
    (hNear : t.dropped ≤ place) : Retried n t (t.receive n) := by
  have hMax : max place t.dropped = place := by omega
  have hReceive : t.receive n = match t.kept[place - t.dropped]? with
      | some a => ({ t with places := t.places.set n (some (place + 1)) }, .message a)
      | none => (t, if t.closed then .ended else .pending) := by
    rw [receive, hPlace]
    dsimp only
    rw [messageFrom, hMax]
    cases t.kept[place - t.dropped]? <;> rfl
  have hAttempt : t.attempt n = match t.kept[place - t.dropped]? with
      | some a => ({ t with places := t.places.set n (some (place + 1)) }, .message a)
      | none => (t, if t.closed then .closed else .empty) := by
    rw [attempt, hPlace]
    dsimp only
    rw [if_neg (by omega)]
  rw [hReceive]
  -- either way looks at the same message, and only tells its absence in another way
  cases hGet : t.kept[place - t.dropped]? with
  | some a =>
    rw [hGet] at hAttempt
    exact .message hAttempt
  | none =>
    rw [hGet] at hAttempt
    cases hClosed : t.closed with
    | true => exact .closed (hAttempt.trans (by simp [hClosed]))
    | false => exact .empty (hAttempt.trans (by simp [hClosed]))

/-- Trying again comes to an end, with what the subscriber is to receive. -/
theorem retried_receive (hKept : t.dropped ≠ 0 → t.kept ≠ []) (n : Nat) :
    Retried n t (t.receive n) := by
  cases hPlace : t.place? n with
  | none =>
    have hReceive : t.receive n = (t, .ended) := by rw [receive, hPlace]
    rw [hReceive]
    exact .closed (by rw [attempt, hPlace])
  | some place =>
    rcases Nat.lt_or_ge place t.dropped with hLags | hNear
    -- the second attempt is that of a subscriber which doesn't lag
    · have hMoved := place?_set hPlace t.dropped
      have hAttempt : t.attempt n = ({ t with places := t.places.set n (some t.dropped) },
          .lagged (t.dropped - place)) := by
        rw [attempt, hPlace]
        dsimp only
        rw [if_pos hLags]
      have hLength : 0 < t.kept.length := List.length_pos_iff.mpr (hKept (by omega))
      have hFirst := List.getElem?_eq_getElem hLength
      have hReceive : t.receive n =
          ({ t with places := t.places.set n (some t.dropped) } : Topic α).receive n := by
        have hGet : t.kept[place - t.dropped]? = some t.kept[0] := by
          rwa [Nat.sub_eq_zero_of_le (Nat.le_of_lt hLags)]
        have hAgain : t.kept[t.dropped - t.dropped]? = some t.kept[0] := by rwa [Nat.sub_self]
        rw [receive_of_getElem? hPlace hGet, receive_of_getElem? hMoved hAgain,
          Nat.max_eq_right (Nat.le_of_lt hLags)]
        simp only [dropped, List.set_set, Nat.max_self]
      rw [hReceive]
      exact .lagged hAttempt (retried_of_attempt hMoved (Nat.le_refl _))
    · exact retried_of_attempt hPlace hNear

/-- There is one end that trying again can come to. -/
theorem Retried.unique {found found' : Topic α × Receipt α} (h : Retried n t found)
    (h' : Retried n t found') : found = found' := by
  -- after each attempt there is one outcome, and only after a lag another attempt
  induction h with
  | message h | empty h | closed h =>
    cases h' with
    | _ h' =>
      rw [h] at h'
      cases h'
      try rfl
  | lagged h _ ih =>
    cases h' with
    | message h' | empty h' | closed h' =>
      rw [h] at h'
      cases h'
    | lagged h' hAgain =>
      rw [h] at h'
      cases h'
      exact ih hAgain

/-- Retrying after a reader has lagged ends where one `receive` does, so the loop of the bus
adds nothing of its own. -/
theorem Tracked.retried_iff (h : Tracked capacity t log) {found : Topic α × Receipt α} :
    Retried n t found ↔ t.receive n = found := by
  have hPos := h.slots_pos
  have hKept : t.dropped ≠ 0 → t.kept ≠ [] := fun hDropped hNil => by
    have hLength := h.kept
    rw [dropped] at hDropped
    rw [hNil] at hLength hDropped
    simp only [List.length_nil] at hLength hDropped
    omega
  exact ⟨fun hRetried => (retried_receive hKept n).unique hRetried,
    fun hEq => hEq ▸ retried_receive hKept n⟩

end Attempts

/-! ## What every log is like -/

section Delivery

variable {α : Type} {t t' : Topic α} {n capacity : Nat} {log before after : List (Occurrence α)}

/-- What a log of a topic of a capacity is like, and how its subscribers receive. -/
structure Delivered (capacity : Nat) (t : Topic α) (log : List (Occurrence α)) : Prop where
  /-- As many messages are kept as the capacity, rounded up to a power of two. -/
  slots : IsLeast {m | m.isPowerOfTwo ∧ max capacity 1 ≤ m} (slotsFor capacity)
  /-- A publication counts the subscribers that are live. -/
  counted : ∀ before a k after, log = before ++ .published a k :: after →
    k = (audience before).length
  /-- The messages that a reader counts are those published since its subscriber came. -/
  heard : ∀ n, (reader (slotsFor capacity) n log).published =
    (since n log).filterMap Occurrence.message?
  /-- A subscriber is told what its reader is to find: of the messages published since it
  subscribed, the earliest after its last one that is among the newest. -/
  replied : ∀ n, repliesTo n log = (reader (slotsFor capacity) n log).replies
  /-- What it receives was published since it subscribed, is in the order of publication, and
  comes once. -/
  ordered : ∀ n, (reader (slotsFor capacity) n log).positions.Pairwise (· < ·) ∧
    (receivedBy n log).map some = (reader (slotsFor capacity) n log).positions.map
      ((reader (slotsFor capacity) n log).published[·]?)
  /-- What it has missed was not among the newest any more when it might have been received. -/
  missed : ∀ n, ∀ i < (reader (slotsFor capacity) n log).next,
    i ∉ (reader (slotsFor capacity) n log).positions →
    ∃ before, before <+: log ∧ (reader (slotsFor capacity) n before).next ≤ i ∧
      i + slotsFor capacity < (reader (slotsFor capacity) n before).published.length
  /-- When it has never been further behind than there are slots, it has missed nothing. -/
  complete : ∀ n, (∀ before, before <+: log →
      (reader (slotsFor capacity) n before).published.length ≤
        (reader (slotsFor capacity) n before).next + slotsFor capacity) →
    receivedBy n log = (reader (slotsFor capacity) n log).published.take
      (reader (slotsFor capacity) n log).next
  /-- It is told that there is no message only when it has received the newest one since it
  subscribed. -/
  exhausted : ∀ before n reply after, log = before ++ .replied n reply :: after →
    reply.message? = none → (reader (slotsFor capacity) n before).next =
      (reader (slotsFor capacity) n before).published.length
  /-- Once the topic has ended, a subscriber receives what is ahead of it, and then is told of the
  end. -/
  drained : ∀ before after, log = before ++ .closed :: after → ∀ n,
    repliesTo n after = List.zipWith Reply.of ((repliesTo n after).map Reply.waits)
      (((reader (slotsFor capacity) n before).ahead (slotsFor capacity)).map .message ++
        List.replicate (repliesTo n after).length .ended)
  /-- What concerns a subscriber decides what it is told, whoever else there is. -/
  apart : ∀ (t' : Topic α) log' n n', Observed capacity t' log' →
    concerns n log = concerns n' log' → repliesTo n log = repliesTo n' log'
  /-- A subscriber that tries again whenever it lags comes to an end, and finds what the topic gives
  it in one go. -/
  retried : ∀ n found, Retried n t found ↔ t.receive n = found

/-- After the end nothing is published, and nobody comes. -/
theorem Observed.after_closed (h : Observed capacity t (before ++ after))
    (hClosed : .closed ∈ before) :
    after.filterMap (Occurrence.concern n) =
      ((repliesTo n after).map Reply.waits).map .asked ∧ .subscribed n ∉ after := by
  generalize hLog : before ++ after = log at h
  induction h generalizing after with
  | created =>
    rw [(List.append_eq_nil_iff.mp hLog).2]
    exact ⟨rfl, List.not_mem_nil⟩
  | @acted t₀ t₁ log op e h hAct ih =>
    rcases List.eq_nil_or_concat after with rfl | ⟨rest, last, rfl⟩
    · exact ⟨rfl, List.not_mem_nil⟩
    · rw [List.concat_eq_append, ← List.append_assoc] at hLog
      obtain ⟨hInit, hLast⟩ := List.append_inj' hLog rfl
      cases hLast
      obtain ⟨hConcerns, hNobody⟩ := ih hInit
      have hEnded : t₀.closed = true :=
        h.tracked.ended.mpr (hInit ▸ List.mem_append_left rest hClosed)
      have hReplies : repliesTo n (rest ++ [e]) = repliesTo n rest ++ repliesTo n [e] :=
        List.filterMap_append
      rw [List.concat_eq_append, List.filterMap_append, hConcerns, hReplies]
      cases acts_of_act hAct with
      -- what needs an open topic has not happened
      | subscribed hOpen | published hOpen | closed hOpen =>
        rw [hEnded] at hOpen
        cases hOpen
      | @replied m _ _ waits =>
        refine ⟨?_, by simp [hNobody]⟩
        by_cases hEq : m = n <;> simp [Occurrence.concern, repliesTo, hEq]
      | left => exact ⟨by simp [Occurrence.concern, repliesTo], by simp [hNobody]⟩

/-- After a close a reader is handed what was still ahead of it, and then the end each time it
asks. -/
theorem Observed.drained (h : Observed capacity t (before ++ .closed :: after)) (n : Nat) :
    repliesTo n after = List.zipWith Reply.of ((repliesTo n after).map Reply.waits)
      (((reader (slotsFor capacity) n before).ahead (slotsFor capacity)).map .message ++
        List.replicate (repliesTo n after).length .ended) := by
  have hPos := slotsFor_pos capacity
  obtain ⟨t₀, t₁, op, hBefore, hAct, hEnd⟩ := h.exists_act
  have hParts : before ++ .closed :: after = (before ++ [.closed]) ++ after := by simp
  rw [hParts] at h
  obtain ⟨hConcerns, hNobody⟩ := h.after_closed (n := n) (by simp)
  have hReplies := h.tracked.replies n
  have hSplit : repliesTo n ((before ++ [.closed]) ++ after) =
      repliesTo n before ++ repliesTo n after := by
    simp [repliesTo, List.filterMap_append]
  rw [hSplit] at hReplies
  by_cases hMem : .subscribed n ∈ before
  · have hMem' : .subscribed n ∈ before ++ [.closed] := List.mem_append_left _ hMem
    rw [reader_append_of_mem hMem', hConcerns, reader_concat_of_mem hMem] at hReplies
    dsimp only [Occurrence.concern] at hReplies
    rw [Reader.replies_asked hPos rfl (m := (repliesTo n after).length) (by simp)] at hReplies
    have hTold := hBefore.tracked.replies n
    rw [Reader.follow_closed, hTold] at hReplies
    exact (List.append_cancel_left hReplies).symm
  -- whoever has not come by then never does, and is told nothing
  · have hNever : .subscribed n ∉ (before ++ [.closed]) ++ after := by simp [hMem, hNobody]
    rw [reader_of_not_mem hNever] at hReplies
    have hNil := (List.append_eq_nil_iff.mp hReplies.symm).2
    rw [hNil]
    rfl

/-- Whatever is done with a topic by `publish`, `subscribe`, `next` and `try_next`, its subscribers
receive what they should. -/
theorem delivery (h : Observed capacity t log) : Delivered capacity t log := by
  have hPos := slotsFor_pos capacity
  have hTracked := h.tracked
  have hReceived : ∀ n, (receivedBy n log).map some =
      (reader (slotsFor capacity) n log).positions.map
        ((reader (slotsFor capacity) n log).published[·]?) := fun n => by
    rw [receivedBy, ← hTracked.replies n]
    exact (sound_reader hPos n log).received
  constructor
  case slots => exact isLeast_slotsFor capacity
  case counted =>
    rintro before a k after rfl
    -- the count is taken before the message is published
    obtain ⟨t₀, t₁, op, hBefore, hAct, -⟩ := h.exists_act
    have hCounted := hBefore.tracked.people.counted
    cases acts_of_act hAct with
    | published =>
      rw [hCounted, publish]
      split
      · next hNone => exact hNone.symm
      · rfl
  case heard => exact fun n => published_reader ..
  case replied => exact fun n => (hTracked.replies n).symm
  case ordered => exact fun n => ⟨(sound_reader hPos n log).ordered, hReceived n⟩
  case missed => exact fun n i hPassed hMissed => exists_overtaken hPos hPassed hMissed
  case complete =>
    intro n hNear
    have hAll := hReceived n
    -- one that never lags is given every place from its first on
    rw [positions_eq_range hPos hNear, map_range_getElem? (sound_reader hPos n log).next_le] at hAll
    exact (List.map_inj_right fun _ _ => Option.some.inj).mp hAll
  case exhausted =>
    rintro before n reply after rfl hNothing
    obtain ⟨t₀, t₁, op, hBefore, hAct, -⟩ := h.exists_act
    have hNext := (sound_reader hPos n before).next_le
    cases acts_of_act hAct with
    | @replied _ place hPlace waits =>
      have hReads := hBefore.tracked.reads n (Option.isSome_of_eq_some hPlace)
      have hSlots := hBefore.tracked.slots
      rw [Reply.message?_of, hReads.finds (hSlots ▸ hPos), hSlots, Reader.finds,
        Reader.due?_eq hPos] at hNothing
      -- if something were left to be read, it would have been found
      by_contra hMore
      have hLt : (reader (slotsFor capacity) n before).next <
          (reader (slotsFor capacity) n before).published.length := by omega
      rw [if_pos hLt, Option.bind_some, List.getElem?_eq_getElem (by omega)] at hNothing
      cases hNothing
  case drained =>
    rintro before after rfl n
    exact h.drained n
  case apart =>
    intro t' log' n n' h' hSame
    rw [← hTracked.replies n, ← h'.tracked.replies n', reader, hSame, reader]
  case retried => exact fun n found => hTracked.retried_iff

/-- A subscriber falls behind, another one comes and goes, and the topic ends. -/
def laggingRun : List (Operation Nat) :=
  [.subscribe, .publish 0, .publish 1, .publish 2, .publish 3, .publish 4, .next 0, .subscribe,
    .tryNext 1, .publish 5, .unsubscribe 1, .next 0, .close, .next 0, .next 0, .tryNext 0]

/-- A reader two messages late on a topic of two slots misses the oldest and reads the rest,
also after the close. -/
theorem delivery_laggingRun : ∃ t log, (create 2).actAll laggingRun = some (t, log) ∧
    Delivered 2 t log ∧
    repliesTo 0 log = [.waited (.message 3), .waited (.message 4), .waited (.message 5),
      .waited .ended, .polled none] ∧
    repliesTo 1 log = [.polled none] :=
  ⟨_, _, rfl,
    delivery (Observed.created.actAll (rfl : (create 2).actAll laggingRun = some (_, _))),
    by decide, by decide⟩

end Delivery

end Topic

end Taskyard
