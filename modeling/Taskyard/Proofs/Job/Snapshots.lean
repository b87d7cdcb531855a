import Taskyard.Job.Transition

/-!
# Jobs — the snapshots of a task

The steps of a live task come in any order, and some of them hand over a snapshot of its record.
What a snapshot tells is never taken back by a later one: logs are only added, a start is told once,
and a failure or an interruption is the last word. As long as the clock does not go back, what has
ended has started before.

Main definitions and results:

* `Task.snapshots` — the snapshots that a sequence of steps hands over.
* `Task.Onward` — what is kept from one record of a task to a later one.
* `Task.Timed` — the times of a record fit its state.
* `TaskStep.outstanding`, `pending_apply` — the count of a record is that of the references taken
  and not given back.
* `Task.Chronicle`, `Job.snapshots_chronicle` — what the snapshots of a new task tell together,
  whatever its steps.
-/

namespace Taskyard

namespace TaskStep

/-- The number of references that are outstanding after a step. One that was never taken cannot be
given back. -/
def outstanding (n : Nat) : TaskStep → Nat
  | .retain => n + 1
  | .release => n - 1
  | _ => n

end TaskStep

namespace Task

variable {s t r : Task} {now : Int64}

/-- The snapshots that steps hand over, each taken at the time beside it. -/
def snapshots (t : Task) : List (Int64 × TaskStep) → List Task
  | [] => []
  | (now, x) :: rest =>
    (if x.persists t then [x.apply now t] else []) ++ (x.apply now t).snapshots rest

/-- The references that are outstanding after these steps of a new task. -/
def outstanding (steps : List (Int64 × TaskStep)) : Nat :=
  steps.foldl (fun n x => x.2.outstanding n) 0

/-- A release takes one reference away, and the last one lets the task finish. The progress may be
set with it. -/
theorem release_cases (now : Int64) (t : Task) :
    ∃ progress, t.release now = { t with pending := max (t.pending - 1) 0, progress } ∨
      t.release now =
        transition now .finished "" { t with pending := max (t.pending - 1) 0, progress } := by
  simp only [release, conclude]
  split
  · split
    · exact ⟨_, .inr rfl⟩
    · exact ⟨_, .inr rfl⟩
  · exact ⟨_, .inl rfl⟩

/-! ## What is kept -/

/-- What is kept from a record to a later one of the same task. -/
structure Onward (s t : Task) : Prop where
  /-- Logs are only added, at the end. -/
  logs    : s.logs <+: t.logs
  /-- A start that was told stays. -/
  started : s.startTime ≠ 0 → t.startTime = s.startTime
  /-- A failure or an interruption stays, with its remark and its times. -/
  final   : s.status.isFinal = true → t.status = s.status ∧ t.statusMessage = s.statusMessage ∧
    t.startTime = s.startTime ∧ t.endTime = s.endTime

theorem Onward.refl (t : Task) : Onward t t :=
  ⟨List.prefix_refl _, fun _ => rfl, fun _ => ⟨rfl, rfl, rfl, rfl⟩⟩

/-- Snapshots move on transitively. -/
theorem Onward.trans (h : Onward r s) (h' : Onward s t) : Onward r t where
  logs := h.logs.trans h'.logs
  started hTold := by
    have hSame := h.started hTold
    exact (h'.started (hSame ▸ hTold)).trans hSame
  final hFinal := by
    obtain ⟨hStatus, hRemark, hStart, hEnd⟩ := h.final hFinal
    obtain ⟨hStatus', hRemark', hStart', hEnd'⟩ := h'.final (hStatus ▸ hFinal)
    exact ⟨hStatus'.trans hStatus, hRemark'.trans hRemark, hStart'.trans hStart, hEnd'.trans hEnd⟩

/-- A record of which neither the logs, nor the state, nor the times differ. -/
theorem Onward.of_eq (hLogs : t.logs = s.logs) (hStatus : t.status = s.status)
    (hRemark : t.statusMessage = s.statusMessage) (hStart : t.startTime = s.startTime)
    (hEnd : t.endTime = s.endTime) : Onward s t :=
  ⟨hLogs ▸ List.prefix_refl _, fun _ => hStart, fun _ => ⟨hStatus, hRemark, hStart, hEnd⟩⟩

/-- A stamp sets the start only where there is none. -/
theorem startTime_stamp (h : t.startTime ≠ 0) : (t.stamp now).startTime = t.startTime := by
  unfold stamp
  split
  · rw [if_neg h]
  · exact if_neg h
  · exact if_neg h
  · exact if_neg h
  · rfl

/-- A transition only moves a task on. -/
theorem Onward.transition (status : TaskStatus) (remark : String) (t : Task) :
    Onward t (t.transition now status remark) := by
  rcases t.transition_cases now status remark with ⟨-, hSame⟩ | ⟨hOpen, remark', _, _, hNew⟩
  · rw [hSame]
    exact .refl t
  · refine ⟨?_, fun hTold => ?_, fun hFinal => ?_⟩
    · have hLogs : (t.transition now status remark).logs = t.logs := by rw [hNew]
      exact hLogs ▸ List.prefix_refl _
    · rw [Task.transition, hOpen]
      exact startTime_stamp hTold
    · rw [hOpen] at hFinal
      cases hFinal

/-- A release only moves a task on. -/
theorem Onward.release (t : Task) : Onward t (t.release now) := by
  obtain ⟨progress, hLess | hDone⟩ := release_cases now t
  · rw [hLess]
    exact .of_eq rfl rfl rfl rfl rfl
  · rw [hDone]
    have hLess : Onward t { t with pending := max (t.pending - 1) 0, progress } :=
      .of_eq rfl rfl rfl rfl rfl
    exact hLess.trans (.transition ..)

/-- **A step** takes nothing back. -/
theorem Onward.apply (x : TaskStep) (t : Task) : Onward t (x.apply now t) := by
  cases x with
  | retain => exact .of_eq rfl rfl rfl rfl rfl
  | release => exact .release t
  | setStatus status remark => exact .transition status remark t
  | appendLog log => exact ⟨List.prefix_append .., fun _ => rfl, fun _ => ⟨rfl, rfl, rfl, rfl⟩⟩
  | setProgress progress => exact .of_eq rfl rfl rfl rfl rfl
  | flush => exact .refl t

/-! ## References -/

/-- Changing the status does not touch the count of references. -/
theorem pending_transition (status : TaskStatus) (remark : String) (t : Task) :
    (t.transition now status remark).pending = t.pending := by
  rcases t.transition_cases now status remark with ⟨-, hSame⟩ | ⟨-, _, _, _, hNew⟩
  · rw [hSame]
  · rw [hNew]

/-- The record counts the references that are outstanding. -/
theorem pending_apply {n : Nat} (h : t.pending = n) (x : TaskStep) :
    (x.apply now t).pending = x.outstanding n := by
  cases x with
  | retain =>
    show t.pending + 1 = _
    rw [h]
    rfl
  | release =>
    show (t.release now).pending = ((n - 1 : Nat) : Int)
    -- the last reference ends the task, any other is counted off
    obtain ⟨progress, hLess | hDone⟩ := release_cases now t
    · rw [hLess]
      dsimp only
      omega
    · rw [hDone, pending_transition]
      dsimp only
      omega
  | setStatus status remark => exact (pending_transition status remark t).trans h
  | appendLog | setProgress | flush => exact h

/-! ## Times -/

/-- The times of a record fit its state, with a clock that has come so far: no start lies ahead, and
what has ended has started, and not after its end. -/
structure Timed (now : Int64) (t : Task) : Prop where
  started : 0 ≤ t.startTime ∧ t.startTime ≤ now
  ended   : t.status.isTerminal = true → 0 < t.startTime ∧ t.startTime ≤ t.endTime

/-- The clock goes on. -/
theorem Timed.mono {later : Int64} (h : Timed now t) (hLater : now ≤ later) : Timed later t :=
  ⟨⟨h.started.1, Int64.le_trans h.started.2 hLater⟩, h.ended⟩

/-- A record of which neither the state nor the times differ. -/
theorem Timed.of_eq (h : Timed now s) (hStatus : t.status = s.status)
    (hStart : t.startTime = s.startTime) (hEnd : t.endTime = s.endTime) : Timed now t := by
  refine ⟨hStart ▸ h.started, fun hEnded => ?_⟩
  rw [hStart, hEnd]
  exact h.ended (hStatus ▸ hEnded)

/-- The start that an end gives to a record lies between zero and the end. -/
theorem start_at_end (hNow : 0 < now) {start : Int64} (hStart : 0 ≤ start ∧ start ≤ now) :
    0 < (if start = 0 then now else start) ∧ (if start = 0 then now else start) ≤ now := by
  split
  · exact ⟨hNow, Int64.le_refl now⟩
  · next hTold => exact ⟨Int64.lt_of_le_of_ne hStart.1 (Ne.symm hTold), hStart.2⟩

/-- Whatever the state, the times after a stamp fit it. -/
theorem timed_stamp (hNow : 0 < now) (hStart : 0 ≤ t.startTime ∧ t.startTime ≤ now) :
    Timed now (t.stamp now) := by
  have hFirst := start_at_end hNow hStart
  unfold stamp
  -- by the state: what runs may get a start, what has ended gets an end and a start before it
  split
  · next hStatus =>
    split
    · exact ⟨⟨Int64.le_of_lt hNow, Int64.le_refl now⟩, fun hEnded => by
        simp [hStatus, TaskStatus.isTerminal] at hEnded⟩
    · exact ⟨hStart, fun hEnded => by simp [hStatus, TaskStatus.isTerminal] at hEnded⟩
  · exact ⟨⟨Int64.le_of_lt hFirst.1, hFirst.2⟩, fun _ => hFirst⟩
  · exact ⟨⟨Int64.le_of_lt hFirst.1, hFirst.2⟩, fun _ => hFirst⟩
  · exact ⟨⟨Int64.le_of_lt hFirst.1, hFirst.2⟩, fun _ => hFirst⟩
  · next hRunning hFinished hInterrupted hError =>
    refine ⟨hStart, fun hEnded => ?_⟩
    cases hStatus : t.status <;> simp_all [TaskStatus.isTerminal]

/-- A transition keeps the times of a task in order. -/
theorem Timed.transition (h : Timed now t) (hNow : 0 < now) (status : TaskStatus)
    (remark : String) : Timed now (t.transition now status remark) := by
  unfold Task.transition
  split
  · exact h
  · exact timed_stamp hNow h.started

/-- One operation keeps the times in order: a case for each of the ten. -/
theorem Timed.apply (h : Timed now t) (hNow : 0 < now) (x : TaskStep) :
    Timed now (x.apply now t) := by
  cases x with
  | setStatus status remark => exact h.transition hNow status remark
  | release =>
    show Timed now (t.release now)
    obtain ⟨progress, hLess | hDone⟩ := release_cases now t
    · rw [hLess]
      exact h.of_eq rfl rfl rfl
    · rw [hDone]
      have hSame : Timed now { t with pending := max (t.pending - 1) 0, progress } :=
        h.of_eq rfl rfl rfl
      exact hSame.transition hNow _ _
  | retain | appendLog | setProgress | flush => exact h.of_eq rfl rfl rfl

/-! ## Sequences of steps -/

/-- A snapshot is the first one, or one of what follows it. -/
theorem mem_snapshots_cons {x : TaskStep} {rest : List (Int64 × TaskStep)}
    (h : s ∈ t.snapshots ((now, x) :: rest)) :
    s = x.apply now t ∨ s ∈ (x.apply now t).snapshots rest := by
  rw [snapshots, List.mem_append] at h
  refine h.imp_left fun hOwn => ?_
  split at hOwn
  · exact List.mem_singleton.mp hOwn
  · cases hOwn

/-- Every snapshot goes on from the record before the steps. -/
theorem onward_of_mem {steps : List (Int64 × TaskStep)} (h : s ∈ t.snapshots steps) :
    Onward t s := by
  induction steps generalizing t with
  | nil => cases h
  | cons step rest ih =>
    obtain ⟨now, x⟩ := step
    rcases mem_snapshots_cons h with rfl | hLater
    · exact .apply x t
    · exact (Onward.apply x t).trans (ih hLater)

/-- Every snapshot goes on from those before it. -/
theorem pairwise_snapshots (t : Task) (steps : List (Int64 × TaskStep)) :
    (t.snapshots steps).Pairwise Onward := by
  induction steps generalizing t with
  | nil => exact .nil
  | cons step rest ih =>
    obtain ⟨now, x⟩ := step
    rw [snapshots]
    split
    · exact List.pairwise_cons.mpr ⟨fun _ hLater => onward_of_mem hLater, ih _⟩
    · exact ih _

/-- The times beside the steps are those of a clock that shows positive times and does not go
back. -/
structure Clocked (steps : List (Int64 × TaskStep)) : Prop where
  positive : ∀ x ∈ steps, 0 < x.1
  ordered  : steps.Pairwise fun x y => x.1 ≤ y.1

/-- The times of every snapshot fit its state. -/
theorem Timed.of_mem {steps : List (Int64 × TaskStep)} (hClock : Clocked steps)
    (h : ∀ x ∈ steps, Timed x.1 t) (hMem : s ∈ t.snapshots steps) : ∃ now, Timed now s := by
  induction steps generalizing t with
  | nil => cases hMem
  | cons step rest ih =>
    obtain ⟨now, x⟩ := step
    obtain ⟨hFirst, hOrdered⟩ := List.pairwise_cons.mp hClock.ordered
    have hNow : 0 < now := hClock.positive _ List.mem_cons_self
    have hNext : Timed now (x.apply now t) := (h _ List.mem_cons_self).apply hNow x
    rcases mem_snapshots_cons hMem with rfl | hLater
    · exact ⟨now, hNext⟩
    · refine ih ⟨fun y hy => hClock.positive y (List.mem_cons_of_mem _ hy), hOrdered⟩
        (fun y hy => hNext.mono (hFirst y hy)) hLater

/-- The count of every snapshot is that of the references outstanding by then. -/
theorem exists_outstanding {steps : List (Int64 × TaskStep)} {n : Nat} (h : t.pending = n)
    (hMem : s ∈ t.snapshots steps) :
    ∃ k, s.pending = (steps.take k).foldl (fun n x => x.2.outstanding n) n := by
  induction steps generalizing t n with
  | nil => cases hMem
  | cons step rest ih =>
    obtain ⟨now, x⟩ := step
    have hNext : (x.apply now t).pending = x.outstanding n := pending_apply h x
    rcases mem_snapshots_cons hMem with rfl | hLater
    · exact ⟨1, hNext⟩
    · obtain ⟨k, hk⟩ := ih hNext hLater
      exact ⟨k + 1, hk⟩

/-- What the snapshots of a task tell together, the earliest first. -/
structure Chronicle (snapshots : List Task) : Prop where
  /-- Of two snapshots the later one only adds to the earlier one. -/
  onward  : snapshots.Pairwise Onward
  /-- No snapshot counts fewer references than none. -/
  counted : ∀ s ∈ snapshots, 0 ≤ s.pending
  /-- A task that has ended has started, and not after its end. -/
  timed   : ∀ s ∈ snapshots, s.status.isTerminal = true →
    0 < s.startTime ∧ s.startTime ≤ s.endTime

end Task

namespace Job

open Taskyard.Task

/-- **What a task has told stays told**: whatever methods of its `TaskHandle` are called, under a
clock that shows positive times and does not go back. The counts of its snapshots stay below every
limit that the references outstanding stay below. -/
theorem snapshots_chronicle (j : Job) (id : String) (steps : List (Int64 × TaskStep))
    (hClock : Clocked steps) :
    Chronicle ((j.freshTask id).snapshots steps) ∧
      ∀ limit : Nat, (∀ k, outstanding (steps.take k) < limit) →
        ∀ s ∈ (j.freshTask id).snapshots steps, s.pending < limit := by
  refine ⟨⟨pairwise_snapshots _ _, fun s hs => ?_, fun s hs => ?_⟩, fun limit hLimit s hs => ?_⟩
  · obtain ⟨k, hk⟩ := exists_outstanding (n := 0) rfl hs
    rw [hk]
    exact Int.natCast_nonneg _
  · have hFresh : ∀ x ∈ steps, Timed x.1 (j.freshTask id) := fun x hx =>
      ⟨⟨Int64.le_refl 0, Int64.le_of_lt (hClock.positive x hx)⟩, fun h => by cases h⟩
    obtain ⟨now, hTimed⟩ := Timed.of_mem hClock hFresh hs
    exact hTimed.ended
  · obtain ⟨k, hk⟩ := exists_outstanding (n := 0) rfl hs
    rw [hk]
    exact Int.ofNat_lt.mpr (hLimit k)

/-- A task that finishes twice, fails, and is released once too often. -/
def restlessSteps : List (Int64 × TaskStep) :=
  [(5, .retain), (5, .setStatus .finished ""), (6, .release), (7, .retain), (7, .setRunning),
    (7, .setStatus .finished "done"), (8, .appendLog ⟨{ id := "a" }, {}, {}⟩), (8, .release),
    (9, .fail "boom"), (9, .release), (9, .setRunning)]

/-- Each of these snapshots goes on from those before it, down to the last word. -/
theorem snapshots_chronicle_restlessSteps :
    Clocked restlessSteps ∧
      (((Job.freshTask { id := "j" } "t").snapshots restlessSteps).map fun s =>
        (s.status, s.startTime, s.endTime, s.pending)) =
        [(.running, 5, 0, 1), (.finished, 5, 6, 0), (.running, 5, 6, 1), (.running, 5, 6, 1),
          (.finished, 5, 8, 0), (.error, 5, 9, 0), (.error, 5, 9, 0), (.error, 5, 9, 0)] ∧
      Chronicle ((Job.freshTask { id := "j" } "t").snapshots restlessSteps) ∧
      ∀ s ∈ (Job.freshTask { id := "j" } "t").snapshots restlessSteps, s.pending < 2 := by
  have hClock : Clocked restlessSteps := ⟨by decide, by decide⟩
  obtain ⟨hChronicle, hLimit⟩ := snapshots_chronicle { id := "j" } "t" restlessSteps hClock
  refine ⟨hClock, by decide, hChronicle, hLimit 2 fun k => ?_⟩
  -- beyond the last step nothing is taken any more
  have hAll : ∀ k ≤ restlessSteps.length, outstanding (restlessSteps.take k) < 2 := by decide
  rcases Nat.le_total k restlessSteps.length with hLe | hGe
  · exact hAll k hLe
  · rw [List.take_of_length_le hGe, ← List.take_length (l := restlessSteps)]
    exact hAll _ (Nat.le_refl _)

end Job

end Taskyard
