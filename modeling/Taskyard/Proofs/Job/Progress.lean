import Taskyard.Proofs.Decimal.Order
import Taskyard.Proofs.Job.Snapshots

/-!
# Jobs — how far a task has come

The progress of a task changes in two ways: a report sets it, and the last release sets it to one.
Before it does so, the last release looks for a failure, but not for an interruption: the progress
of an interrupted task becomes one although the task stays interrupted. That is the one case in
which a release changes the progress of a task that is not finished after it. What is said here of
releases and of reports is exact in this case, too.

Main definitions and results:

* `Task.after` — the record after a sequence of steps.
* `Task.Keeps` — the progress is the one reported last, at every point.
* `Task.Overstates` — a release would set the progress of an interrupted task to one.
* `Task.keeps_iff` — a progress is kept exactly while no release completes it.
* `Job.ProgressLaws`, `Job.progressLaws` — what the progress of a new task tells.
-/

namespace Taskyard

/-- A task stays interrupted or failed: these two are never left. -/
theorem TaskStatus.isFinal_iff {s : TaskStatus} :
    s.isFinal = true ↔ s = .interrupted ∨ s = .error := by
  cases s <;> simp [isFinal]

namespace TaskStep

/-- The progress that a step reports, restricted to the interval from zero to one. -/
def reported? : TaskStep → Option Decimal.Single
  | .setProgress progress => some progress.clampUnit
  | _ => none

end TaskStep

namespace Task

variable {t : Task} {now : Int64} {steps : List (Int64 × TaskStep)}

/-- The record after steps, each taken at the time beside it. -/
def after (t : Task) (steps : List (Int64 × TaskStep)) : Task :=
  steps.foldl (fun t x => x.2.apply x.1 t) t

/-- The progress that is reported last. -/
def lastReport (steps : List (Int64 × TaskStep)) : Option Decimal.Single :=
  (steps.filterMap (·.2.reported?)).getLast?

/-- At every point of the steps the progress is the one reported last, or the one from before. -/
def Keeps (t : Task) (steps : List (Int64 × TaskStep)) : Prop :=
  ∀ part, part <+: steps → (t.after part).progress = (lastReport part).getD t.progress

/-- A release of the task sets its progress to one. -/
def Completes (t : Task) : Prop := t.hasProgress = true ∧ t.status ≠ .error ∧ t.pending ≤ 1

/-- A release of the task, which is interrupted and stays so, sets its progress to one, and it has
not come as far. -/
def Overstates (t : Task) : Prop :=
  t.hasProgress = true ∧ t.status = .interrupted ∧ t.pending ≤ 1 ∧ t.progress ≠ .one .single

/-- One of the steps is a release that overstates how far the task has come. -/
def OverstatedIn (t : Task) (steps : List (Int64 × TaskStep)) : Prop :=
  ∃ earlier now later, steps = earlier ++ (now, .release) :: later ∧ (t.after earlier).Overstates

instance (t : Task) : Decidable t.Completes := inferInstanceAs (Decidable (_ ∧ _ ∧ _))

instance (t : Task) : Decidable t.Overstates := inferInstanceAs (Decidable (_ ∧ _ ∧ _ ∧ _))

/-! ## One step -/

theorem progress_transition (now : Int64) (status : TaskStatus) (remark : String) (t : Task) :
    (t.transition now status remark).progress = t.progress := by
  rcases t.transition_cases now status remark with ⟨-, hSame⟩ | ⟨-, _, _, _, hNew⟩
  · rw [hSame]
  · rw [hNew]

/-- A transition moves a task to the admitted status, unless it has ended. -/
theorem status_transition (now : Int64) (status : TaskStatus) (remark : String) (t : Task) :
    (t.transition now status remark).status =
      if t.status.isFinal = true then t.status else t.admitted status := by
  rcases t.transition_cases now status remark with ⟨hFinal, hSame⟩ | ⟨hOpen, _, _, _, hNew⟩
  · rw [hSame, if_pos hFinal]
  · rw [hNew, hOpen, if_neg Bool.false_ne_true]

/-- A release that leaves other actions pending only counts. -/
theorem release_of_more (now : Int64) (h : 1 < t.pending) :
    t.release now = { t with pending := t.pending - 1 } := by
  have hCount : max (t.pending - 1) 0 = t.pending - 1 := by omega
  simp only [release, hCount]
  exact if_neg (by omega)

/-- The last release completes the progress and lets the task finish. -/
theorem release_of_last (now : Int64) (h : t.pending ≤ 1) :
    t.release now = transition now .finished ""
      { t with pending := 0, progress := if t.Completes then .one .single else t.progress } := by
  have hCount : max (t.pending - 1) 0 = 0 := by omega
  simp only [release, hCount, if_true, conclude, Completes, h, and_true]
  split <;> rfl

/-- Only the release that completes a task touches its progress. -/
theorem progress_release (now : Int64) (t : Task) :
    (t.release now).progress = if t.Completes then .one .single else t.progress := by
  by_cases hLast : t.pending ≤ 1
  · rw [release_of_last now hLast, progress_transition]
  · rw [release_of_more now (not_le.mp hLast), if_neg fun h => hLast h.2.2]

/-- The last release lets a task finish that has neither failed nor been interrupted. -/
theorem status_release (now : Int64) (h : t.pending ≤ 1) :
    (t.release now).status = if t.status.isFinal = true then t.status else .finished := by
  rw [release_of_last now h, status_transition]
  rfl

/-- A step other than a release that completes the progress keeps it or reports another. -/
theorem progress_apply (x : TaskStep) (h : x = .release → t.Completes → t.progress = .one .single) :
    (x.apply now t).progress = x.reported?.getD t.progress := by
  cases x with
  | release =>
    show (t.release now).progress = t.progress
    rw [progress_release]
    split
    · next hCompletes => exact (h rfl hCompletes).symm
    · rfl
  | setStatus status remark => exact progress_transition now status remark t
  | retain | appendLog | setProgress | flush => rfl

/-- A step keeps the progress between zero and one, unless it reports what is not a number. -/
theorem inUnit_apply (h : t.progress.InUnit) (now : Int64) {x : TaskStep}
    (hNumber : ∀ p, x = .setProgress p → p.isNaN = false) : (x.apply now t).progress.InUnit := by
  cases x with
  | release =>
    show (t.release now).progress.InUnit
    rw [progress_release]
    split
    · exact Decimal.Binary.inUnit_one (by decide)
    · exact h
  | setStatus status remark => exact (progress_transition now status remark t).symm ▸ h
  | setProgress p => exact Decimal.Binary.inUnit_clampUnit (by decide) (hNumber p rfl)
  | retain | appendLog | flush => exact h

/-! ## Sequences of steps -/

theorem after_append (t : Task) (earlier later : List (Int64 × TaskStep)) :
    t.after (earlier ++ later) = (t.after earlier).after later := List.foldl_append

/-- One more operation applies to what the earlier ones left. -/
theorem after_concat (t : Task) (earlier : List (Int64 × TaskStep)) (now : Int64) (x : TaskStep) :
    t.after (earlier ++ [(now, x)]) = x.apply now (t.after earlier) := after_append t earlier _

/-- The last report is that of the last operation that reports. -/
theorem lastReport_concat (earlier : List (Int64 × TaskStep)) (now : Int64) (x : TaskStep) :
    lastReport (earlier ++ [(now, x)]) = x.reported?.or (lastReport earlier) := by
  rw [lastReport, List.filterMap_append]
  cases h : x.reported? with
  | none => simp [h, lastReport]
  | some p => simp [h]

/-- Every snapshot is the record at some point of the steps. -/
theorem exists_after_of_mem {s : Task} (h : s ∈ t.snapshots steps) :
    ∃ part, part <+: steps ∧ s = t.after part := by
  induction steps generalizing t with
  | nil => cases h
  | cons step rest ih =>
    obtain ⟨now, x⟩ := step
    rcases mem_snapshots_cons h with rfl | hLater
    · exact ⟨[(now, x)], ⟨rest, rfl⟩, rfl⟩
    · obtain ⟨part, hPart, hSame⟩ := ih hLater
      exact ⟨(now, x) :: part, List.cons_prefix_cons.mpr ⟨rfl, hPart⟩, hSame⟩

/-- The record at each point goes on from the one before. -/
theorem onward_after (t : Task) (steps : List (Int64 × TaskStep)) : Onward t (t.after steps) := by
  induction steps generalizing t with
  | nil => exact .refl t
  | cons step rest ih => exact (Onward.apply step.2 t).trans (ih _)

/-- As long as only numbers are reported, the progress stays between zero and one. -/
theorem inUnit_after (h : t.progress.InUnit)
    (hNumbers : ∀ x ∈ steps, ∀ p, x.2 = .setProgress p → p.isNaN = false) :
    (t.after steps).progress.InUnit := by
  induction steps generalizing t with
  | nil => exact h
  | cons step rest ih =>
    exact ih (inUnit_apply h step.1 (hNumbers step List.mem_cons_self))
      fun x hx => hNumbers x (List.mem_cons_of_mem _ hx)

/-- **The progress is kept exactly while no release completes it** that has not come as far by
itself. -/
theorem keeps_iff (t : Task) (steps : List (Int64 × TaskStep)) :
    t.Keeps steps ↔ ∀ earlier now later, steps = earlier ++ (now, .release) :: later →
      (t.after earlier).Completes → (t.after earlier).progress = .one .single := by
  constructor
  · intro hKeeps earlier now later hSplit hCompletes
    -- the release reports nothing, so the progress is to be the same before and after it
    have hBefore := hKeeps earlier ⟨_, hSplit.symm⟩
    have hAfter := hKeeps (earlier ++ [(now, .release)]) ⟨later, by simp [hSplit]⟩
    rw [lastReport_concat, after_concat] at hAfter
    have hSame : ((t.after earlier).release now).progress = (t.after earlier).progress :=
      hAfter.trans hBefore.symm
    rw [progress_release, if_pos hCompletes] at hSame
    exact hSame.symm
  · intro hReleases part hPart
    -- from one point to the next: only a release that completes could make a difference
    induction part using List.reverseRecOn with
    | nil => rfl
    | append_singleton part step ih =>
      obtain ⟨now, x⟩ := step
      obtain ⟨later, hSplit⟩ := hPart
      have hEarlier := ih ⟨(now, x) :: later, by simp [← hSplit]⟩
      rw [after_concat, lastReport_concat, progress_apply x, hEarlier]
      · cases x.reported? <;> rfl
      · rintro rfl hCompletes
        exact hReleases part now later (by simp [← hSplit]) hCompletes

/-! ## Releases that overstate -/

/-- A release changes the progress of a task that is not finished after it exactly if it
overstates. -/
theorem release_finishes_iff (now : Int64) (t : Task) :
    ((t.release now).progress ≠ t.progress → (t.release now).status = .finished) ↔
      ¬t.Overstates := by
  rw [progress_release]
  by_cases hCompletes : t.Completes
  · obtain ⟨hShown, hNoError, hLast⟩ := hCompletes
    rw [if_pos ⟨hShown, hNoError, hLast⟩, status_release now hLast]
    by_cases hFinal : t.status.isFinal = true
    · have hStatus := (TaskStatus.isFinal_iff.mp hFinal).resolve_right hNoError
      simp [Overstates, hShown, hLast, hStatus, TaskStatus.isFinal, eq_comm]
    · rw [if_neg hFinal]
      exact ⟨fun _ hOver => hFinal (TaskStatus.isFinal_iff.mpr (.inl hOver.2.1)), fun _ _ => rfl⟩
  · rw [if_neg hCompletes]
    refine ⟨fun _ hOver => hCompletes ?_, fun _ hChanged => absurd rfl hChanged⟩
    exact ⟨hOver.1, by simp [hOver.2.1], hOver.2.2.1⟩

/-- Where only an interrupted task is completed beyond what it has come to, its progress is kept
exactly while no release overstates it. -/
theorem keeps_iff_not_overstated
    (h : ∀ earlier now later, steps = earlier ++ (now, .release) :: later →
      (t.after earlier).Completes → (t.after earlier).status = .interrupted) :
    t.Keeps steps ↔ ¬t.OverstatedIn steps := by
  rw [keeps_iff]
  constructor
  · rintro hReleases ⟨earlier, now, later, hSplit, hShown, hStatus, hLast, hLess⟩
    exact hLess (hReleases earlier now later hSplit ⟨hShown, by simp [hStatus], hLast⟩)
  · intro hFair earlier now later hSplit hCompletes
    by_contra hLess
    have hStatus := h earlier now later hSplit hCompletes
    exact hFair ⟨earlier, now, later, hSplit, hCompletes.1, hStatus, hCompletes.2.2, hLess⟩

/-- A failed task keeps the progress reported last. -/
theorem keeps_of_error (h : t.status = .error) (steps : List (Int64 × TaskStep)) :
    t.Keeps steps := by
  rw [keeps_iff]
  intro earlier now later _ hCompletes
  have hStays := (onward_after t earlier).final (by rw [h]; rfl)
  exact absurd (hStays.1.trans h) hCompletes.2.1

/-- An interrupted task keeps it exactly while no release overstates it. -/
theorem keeps_iff_of_interrupted (h : t.status = .interrupted) (steps : List (Int64 × TaskStep)) :
    t.Keeps steps ↔ ¬t.OverstatedIn steps := by
  refine keeps_iff_not_overstated fun earlier now later _ _ => ?_
  have hStays := (onward_after t earlier).final (by rw [h]; rfl)
  exact hStays.1.trans h

/-- So does a task that never finishes. -/
theorem keeps_iff_of_never_finished
    (h : ∀ part, part <+: steps → (t.after part).status ≠ .finished) :
    t.Keeps steps ↔ ¬t.OverstatedIn steps := by
  refine keeps_iff_not_overstated fun earlier now later hSplit ⟨_, hNoError, hLast⟩ => ?_
  have hNext : ((t.after earlier).release now).status ≠ .finished := by
    have hPoint := h (earlier ++ [(now, .release)]) ⟨later, by simp [hSplit]⟩
    rwa [after_concat] at hPoint
  rw [status_release now hLast] at hNext
  -- a task that has neither failed nor been interrupted would finish with this release
  have hFinal : (t.after earlier).status.isFinal = true := by
    by_contra hOpen
    exact hNext (if_neg hOpen)
  exact (TaskStatus.isFinal_iff.mp hFinal).resolve_right hNoError

end Task

namespace Job

open Taskyard.Task

/-- What the progress of a task tells along steps. -/
structure ProgressLaws (t : Task) (steps : List (Int64 × TaskStep)) : Prop where
  /-- In every snapshot it lies between zero and one. -/
  within : ∀ s ∈ t.snapshots steps,
    s.progress.isFinite = true ∧ 0 ≤ s.progress.value ∧ s.progress.value ≤ 1
  /-- A release changes it only if the task is finished after it, unless it overstates. -/
  released {earlier later : List (Int64 × TaskStep)} {now : Int64}
      (hSplit : steps = earlier ++ (now, .release) :: later) :
    (((t.after earlier).release now).progress ≠ (t.after earlier).progress →
        ((t.after earlier).release now).status = .finished) ↔ ¬(t.after earlier).Overstates
  /-- From a failure on, it is the one reported last. -/
  failed {earlier later : List (Int64 × TaskStep)} (hSplit : steps = earlier ++ later)
      (hEnd : (t.after earlier).status = .error) :
    (t.after earlier).Keeps later
  /-- From an interruption on, it is so exactly while no release overstates. -/
  interrupted {earlier later : List (Int64 × TaskStep)} (hSplit : steps = earlier ++ later)
      (hEnd : (t.after earlier).status = .interrupted) :
    (t.after earlier).Keeps later ↔ ¬(t.after earlier).OverstatedIn later
  /-- From the start on, too, if the task does not finish first. -/
  reported (hNever : ∀ part, part <+: steps → (t.after part).status ≠ .finished) :
    t.Keeps steps ↔ ¬t.OverstatedIn steps

/-- **The progress of a new task is as reported**, whatever methods of its `TaskHandle` are called,
as long as `set_progress` is given numbers only: except for the last `release` of an interrupted
task. -/
theorem progressLaws (j : Job) (id : String) (steps : List (Int64 × TaskStep))
    (hNumbers : ∀ x ∈ steps, ∀ p, x.2 = .setProgress p → p.isNaN = false) :
    ProgressLaws (j.freshTask id) steps where
  within s hs := by
    obtain ⟨part, hPart, rfl⟩ := exists_after_of_mem hs
    have hFresh : (j.freshTask id).progress.InUnit := Decimal.Binary.inUnit_zero (by decide)
    have hIn := inUnit_after hFresh fun x hx => hNumbers x (hPart.subset hx)
    exact (Decimal.Binary.inUnit_iff (by decide)).mp hIn
  released _ := release_finishes_iff _ _
  failed _ hEnd := keeps_of_error hEnd _
  interrupted _ hEnd := keeps_iff_of_interrupted hEnd _
  reported hNever := keeps_iff_of_never_finished hNever

/-- One half. -/
def half : Decimal.Single := .ofPattern .single false 0x3f000000

/-- A task is interrupted when it is half done. -/
def stoppedSteps : List (Int64 × TaskStep) :=
  [(5, .retain), (5, .setRunning), (6, .setProgress half), (7, .interrupt "stop")]

/-- The new task that takes these steps. -/
def newTask : Task := Job.freshTask { id := "j", hasProgress := true } "t"

/-- Its snapshots tell of one half from the report on. -/
theorem progressLaws_stoppedSteps :
    (∀ x ∈ stoppedSteps, ∀ p, x.2 = .setProgress p → p.isNaN = false) ∧
      ((newTask.snapshots stoppedSteps).map fun s => (s.status, s.progress)) =
        [(.running, .zero .single), (.running, half), (.interrupted, half)] ∧
      ProgressLaws newTask stoppedSteps := by
  have hNumbers : ∀ x ∈ stoppedSteps, ∀ p, x.2 = .setProgress p → p.isNaN = false := by
    simp only [stoppedSteps, List.forall_mem_cons, TaskStep.setRunning, TaskStep.interrupt,
      reduceCtorEq, false_implies, implies_true, TaskStep.setProgress.injEq, true_and]
    exact ⟨fun p hp => hp ▸ by decide, by simp⟩
  exact ⟨hNumbers, by decide, progressLaws _ "t" stoppedSteps hNumbers⟩

/-- **The last `release` completes it all the same**, and the task stays interrupted. -/
theorem interrupted_completed :
    half.isNaN = false ∧ lastReport stoppedSteps = some half ∧
      (newTask.after stoppedSteps).progress = half ∧ (newTask.after stoppedSteps).Overstates ∧
      ((newTask.after stoppedSteps).release 8).status = .interrupted ∧
      ((newTask.after stoppedSteps).release 8).progress = .one .single ∧
      ¬(((newTask.after stoppedSteps).release 8).progress ≠ (newTask.after stoppedSteps).progress →
        ((newTask.after stoppedSteps).release 8).status = .finished) := by
  decide

end Job

end Taskyard
