import Taskyard.Proofs.Scheduler.Course
import Taskyard.Proofs.Scheduler.Steps

/-!
# Scheduler — counting references

The pending actions of a task are counted by hand: a reference is taken before a runnable is queued
and let go when its execution has ended, or on one of the paths on which it is never executed. The
count is exact in every state that can be reached, as long as the router does not throw away a main
queue that still holds runnables.

Main results:

* `Stage.turn` — the two stages of a task, start and work, are kept by a turn at any duty.
* `Machine.Accounted.move` — so every step keeps the books of all tasks.
* `Machine.references_balanced` — the count, no release without a reference, no finish with one, and
  an end for every task.
-/

namespace Taskyard

/-! ## What deeds owe -/

namespace Deed

/-- What a deed does to the number of references that are still to be let go: a runnable that is
queued takes a reference along. -/
def weight : Deed → Int
  | .mark .retain => -1
  | .mark .release => 1
  | .queue _ _ => 1
  | _ => 0

/-- The references that deeds have still to let go, less those that they have still to take. -/
def owed (ds : List Deed) : Int := (ds.map weight).sum

@[simp]
theorem owed_nil : owed [] = 0 := rfl

@[simp]
theorem owed_cons (d : Deed) (ds : List Deed) : owed (d :: ds) = d.weight + owed ds := rfl

/-- What a list of deeds owes adds up. -/
@[simp]
theorem owed_append (ds ds' : List Deed) : owed (ds ++ ds') = owed ds + owed ds' := by
  simp [owed]

theorem owed_flush (ds : List Deed) : owed (.mark .flush :: ds) = owed ds := Int.zero_add _

/-- Deeds that hold a reference until the last of them is done. -/
def Closing : List Deed → Prop
  | [] => True
  | d :: ds => 1 ≤ owed (d :: ds) ∧ Closing ds

/-- Deeds that hold a reference owe something unless there are none. -/
theorem Closing.owed_nonneg {ds : List Deed} (h : Closing ds) : 0 ≤ owed ds := by
  cases ds with
  | nil => exact Int.le_refl 0
  | cons => exact Int.le_trans (by decide) h.1

/-- A deed that neither takes nor lets go of a reference, before deeds that hold one. -/
theorem Closing.cons {d : Deed} {ds : List Deed} (hWeight : d.weight = 0) (h : Closing ds)
    (hOwed : 1 ≤ owed ds) : Closing (d :: ds) :=
  ⟨by rw [owed_cons, hWeight]; omega, h⟩

/-- A release before deeds that hold a reference. -/
theorem Closing.release {ds : List Deed} (h : Closing ds) : Closing (.mark .release :: ds) := by
  have hOwed := h.owed_nonneg
  refine ⟨?_, h⟩
  rw [owed_cons, weight]
  omega

theorem closing_fail (reason : String) : Closing [.mark (.fail reason), .mark .release] :=
  Closing.cons rfl (Closing.release trivial) (by decide)

/-- What is done for a runnable that goes nowhere holds its reference. -/
theorem closing_turnAway (reason : String) : Closing (Machine.turnAway reason) :=
  Closing.cons rfl (Closing.release trivial) (by decide)

/-- What is done in place of queueing holds the reference that the runnable would have had. -/
theorem closing_refused {ds : List Deed} (h : Closing ds) : Closing (refused ++ ds) :=
  Closing.cons rfl h.release h.release.1

theorem owed_refused : owed refused = 1 := rfl

end Deed

open Deed

namespace Runnable

/-- The deeds for a chained action take a reference for each runnable and queue it with it. -/
theorem closing_childDeeds (chained : Action) (x : Except Fault (List Message)) {ds : List Deed}
    (h : Closing ds) (hOwed : 1 ≤ owed ds) :
    Closing (childDeeds chained x ++ ds) ∧ owed (childDeeds chained x ++ ds) = owed ds := by
  cases x with
  | error e =>
    exact ⟨Closing.cons rfl h hOwed, by simp [childDeeds, weight, TaskStep.fail]⟩
  | ok inputs =>
    -- each input takes a reference and hands it to its runnable, so what comes after is as before
    induction inputs with
    | nil => exact ⟨h, rfl⟩
    | cons input rest ih =>
      obtain ⟨hClosing, hSame⟩ := ih
      simp only [childDeeds, List.flatMap_cons, List.cons_append, List.nil_append, Closing,
        owed_cons, weight] at hClosing hSame ⊢
      refine ⟨⟨?_, ?_, hClosing⟩, ?_⟩ <;> omega

/-- The deeds for all chained actions hold the reference of what comes after them. -/
theorem closing_descend (r : Runnable) (b : Backend) (buffer : Nat) (output : Message)
    {ds : List Deed} (h : Closing ds) (hOwed : 1 ≤ owed ds) :
    Closing (r.descend b buffer output ++ ds) ∧ owed (r.descend b buffer output ++ ds) = owed ds := by
  unfold descend
  induction r.action.chained with
  | nil => exact ⟨h, rfl⟩
  | cons chained rest ih =>
    obtain ⟨hClosing, hSame⟩ := ih
    rw [List.flatMap_cons, List.append_assoc, ← hSame]
    exact closing_childDeeds chained _ hClosing (hSame ▸ hOwed)

/-- Deeds that an execution leaves when its run is over: they hold the reference of the execution,
and the last of them lets it go. -/
structure Ends (ds : List Deed) : Prop where
  closing : Closing ds
  owed    : owed ds = 1
  last    : ∃ before, ds = before ++ [.mark .release]

/-- After a fault the deeds close with a release. -/
theorem ends_afterFault (r : Runnable) (now : Int64) (reason : String) :
    Ends (r.afterFault now reason) where
  closing :=
    have hFail := closing_fail reason
    Closing.cons rfl hFail hFail.1
  owed := rfl
  last := ⟨r.recordFailure now reason, rfl⟩

/-- What is done after a crash outside of the run. -/
theorem ends_afterCrash (r : Runnable) (reason : String) : Ends (r.afterCrash reason) where
  closing := closing_fail _
  owed := rfl
  last := ⟨[_], rfl⟩

/-- After an output the deeds close with a release, whatever they queue before. -/
theorem ends_afterOutput (r : Runnable) (b : Backend) (buffer : Nat) (output : Message) :
    Ends (r.afterOutput b buffer output) := by
  unfold afterOutput
  split
  · next reason _ =>
    have hFail := closing_fail reason
    exact ⟨Closing.cons rfl hFail hFail.1, rfl, ⟨[_, _], rfl⟩⟩
  -- the last reference stays until all chained actions are queued
  · have hTail : Closing [.mark .flush, .mark .release] := ⟨by decide, by decide, trivial⟩
    obtain ⟨hClosing, hSame⟩ := closing_descend r b buffer output hTail (by decide)
    refine ⟨Closing.cons rfl hClosing (by rw [hSame]; decide), ?_,
      ⟨.mark (.appendLog (r.logOf output.logOutput)) ::
        (r.descend b buffer output ++ [.mark .flush]), by simp⟩⟩
    rw [owed_cons, hSame]
    rfl

end Runnable

/-! ## What duties hold -/

namespace Duty

/-- The references that a duty holds. -/
def held : Duty → Int
  | .waiting _ => 1
  | .running e =>
    match e.phase with
    | .doing ds => owed ds
    | _ => 1
  | .errand _ ds => owed ds

/-- Whether the deeds of a duty hold a reference to their end, and, in an execution, end with its
release. -/
def Orderly : Duty → Prop
  | .waiting _ => True
  | .running e =>
    match e.phase with
    | .doing ds => Closing ds ∧ (ds = [] ∨ ∃ before, ds = before ++ [.mark .release])
    | _ => True
  | .errand _ ds => Closing ds

/-- The deeds of an orderly duty hold a reference to their end. -/
theorem Orderly.closing {d : Duty} {ds : List Deed} (h : d.Orderly) (hDeeds : d.deeds = some ds) :
    Closing ds ∧ d.held = owed ds := by
  cases d with
  | waiting r => exact absurd hDeeds (by simp [Duty.deeds])
  | running e =>
    obtain ⟨r, phase⟩ := e
    cases phase with
    | doing ds' =>
      obtain rfl : ds' = ds := Option.some.inj hDeeds
      exact ⟨h.1, rfl⟩
    | _ => exact absurd hDeeds (by simp [Duty.deeds])
  | errand i ds' =>
    obtain rfl : ds' = ds := Option.some.inj hDeeds
    exact ⟨h, rfl⟩

/-- A duty that has come to deeds holds what they owe, and any other duty holds one reference. -/
theorem held_of_deeds_eq_none {d : Duty} (h : d.deeds = none) : d.held = 1 := by
  cases d with
  | waiting r => rfl
  | running e =>
    obtain ⟨r, phase⟩ := e
    cases phase with
    | doing ds => exact absurd h (by simp [Duty.deeds])
    | _ => rfl
  | errand i ds => exact absurd h (by simp [Duty.deeds])

/-- An orderly duty holds no negative number of references. -/
theorem Orderly.held_nonneg {d : Duty} (h : d.Orderly) : 0 ≤ d.held := by
  cases hDeeds : d.deeds with
  | none =>
    rw [held_of_deeds_eq_none hDeeds]
    decide
  | some ds =>
    obtain ⟨hClosing, hHeld⟩ := h.closing hDeeds
    rw [hHeld]
    exact hClosing.owed_nonneg

/-- The references held by several duties. -/
def allHeld (ds : Multiset Duty) : Int := (ds.map held).sum

@[simp]
theorem allHeld_cons (d : Duty) (ds : Multiset Duty) : allHeld (d ::ₘ ds) = d.held + allHeld ds := by
  simp [allHeld]

@[simp]
theorem allHeld_singleton (d : Duty) : allHeld {d} = d.held := by simp [allHeld]

@[simp]
theorem allHeld_add (ds ds' : Multiset Duty) : allHeld (ds + ds') = allHeld ds + allHeld ds' := by
  simp [allHeld]

/-- A duty holds what its deeds owe. -/
@[simp]
theorem allHeld_ofDeeds (i : Nat) (ds : List Deed) : allHeld (ofDeeds i ds) = owed ds := by
  cases ds with
  | nil => rfl
  | cons => simp [ofDeeds, held]

/-- Orderly duties never hold less than nothing. -/
theorem allHeld_nonneg {ds : Multiset Duty} (h : ∀ d ∈ ds, d.Orderly) : 0 ≤ allHeld ds := by
  induction ds using Multiset.induction_on with
  | empty => exact Int.le_refl 0
  | cons d ds ih =>
    have hHead := (h d (Multiset.mem_cons_self d ds)).held_nonneg
    have hTail := ih fun d' hd' => h d' (Multiset.mem_cons_of_mem hd')
    rw [allHeld_cons]
    omega

/-- The duty of deeds that hold a reference is orderly. -/
theorem orderly_of_mem_ofDeeds {d : Duty} {i : Nat} {ds : List Deed} (h : Closing ds)
    (hd : d ∈ ofDeeds i ds) : d.Orderly := by
  obtain ⟨-, rfl⟩ := mem_ofDeeds.mp hd
  exact h

/-- Going on with an orderly duty leaves an orderly one, if deeds are put in only where the last
release is still to come. -/
theorem Orderly.resume {d : Duty} {x : Deed} {rest : List Deed} (h : d.Orderly)
    (more : List Deed) (hDeeds : d.deeds = some (x :: rest)) (hMore : more = [] ∨ x ≠ .mark .release)
    (hClosing : Closing (more ++ rest)) :
    (∀ d' ∈ d.resume (more ++ rest), d'.Orderly) ∧
      allHeld (d.resume (more ++ rest)) = owed (more ++ rest) := by
  cases d with
  | waiting r => exact absurd hDeeds (by simp [Duty.deeds])
  | errand i ds =>
    exact ⟨fun d' hd' => orderly_of_mem_ofDeeds hClosing hd', allHeld_ofDeeds i _⟩
  | running e =>
    obtain ⟨r, phase⟩ := e
    cases phase with
    | doing ds =>
      obtain rfl : ds = x :: rest := Option.some.inj hDeeds
      refine ⟨fun d' hd' => ?_, by simp [Duty.resume, held]⟩
      rw [Multiset.mem_singleton.mp hd']
      refine ⟨hClosing, ?_⟩
      rcases h.2 with hNil | ⟨before, hLast⟩
      · exact absurd hNil (by simp)
      -- if this was the last deed it was the release, and nothing comes after it
      · cases before with
        | nil =>
          obtain ⟨rfl, rfl⟩ := List.cons.inj hLast
          rcases hMore with rfl | hNe
          · exact Or.inl rfl
          · exact absurd rfl hNe
        | cons y before =>
          obtain ⟨-, rfl⟩ := List.cons.inj hLast
          exact Or.inr ⟨more ++ before, by simp⟩
    | _ => exact absurd hDeeds (by simp [Duty.deeds])

end Duty

/-! ## The start of a task -/

/-- The deeds with which `launch` starts a task, after so many references were taken and with or
without a failure so far: failures; then either an end because there is nothing to run, or nothing
more after a failure, or all the references, one snapshot, and all the runnables. -/
inductive Deed.Opens : Bool → Int → List Deed → Prop
  | failing {failed : Bool} {ds : List Deed} (reason : String) (h : Opens true 0 ds) :
      Opens failed 0 (.mark (.fail reason) :: ds)
  | nothing (remark : String) : Opens false 0 [.mark (.setStatus .finished remark)]
  | failed : Opens true 0 []
  | retaining {failed : Bool} {n : Int} {ds : List Deed} (hCount : 0 ≤ n) (h : Opens failed (n + 1) ds) :
      Opens failed n (.mark .retain :: ds)
  | ready {failed : Bool} {n : Int} {ds : List Deed} (hCount : 1 ≤ n) (hOwed : owed ds = n)
      (hClosing : Closing ds) : Opens failed n ds

namespace Deed

/-- The references that were taken are those that the deeds owe. -/
theorem Opens.owed_eq {failed : Bool} {n : Int} {ds : List Deed} (h : Opens failed n ds) :
    owed ds = n := by
  induction h with
  | failing reason _ ih => rw [owed_cons, ih]; rfl
  | nothing => rfl
  | failed => rfl
  | retaining _ _ ih =>
    rw [owed_cons, ih, weight]
    omega
  | ready _ hOwed => exact hOwed

/-- A release comes only when there is a reference to give back. -/
theorem Opens.pending_of_release {failed : Bool} {n : Int} {ds : List Deed}
    (h : Opens failed n (.mark .release :: ds)) : 1 ≤ n := by
  cases h with
  | ready hCount => exact hCount

/-- Runnables that are queued hold a reference each. -/
theorem closing_queue (inputs : List (Action × Message)) :
    Closing (inputs.map fun (a, input) => .queue a input) ∧
      owed (inputs.map fun (a, input) => .queue a input) = inputs.length := by
  induction inputs with
  | nil => exact ⟨trivial, rfl⟩
  | cons x rest ih =>
    obtain ⟨hClosing, hOwed⟩ := ih
    simp only [List.map_cons, Closing, owed_cons, weight, hOwed, List.length_cons]
    refine ⟨⟨?_, hClosing⟩, ?_⟩ <;> omega

/-- So many references are taken before deeds that owe them. -/
theorem opens_retain {failed : Bool} {ds : List Deed} (hClosing : Closing ds) {k : Nat} {n : Int}
    (hCount : 0 ≤ n) (hOwed : owed ds = n + k) (hSome : 1 ≤ owed ds) :
    Opens failed n (List.replicate k (.mark .retain) ++ ds) := by
  induction k generalizing n with
  | zero => exact .ready (by omega) (by simpa using hOwed) hClosing
  | succ k ih =>
    rw [List.replicate_succ, List.cons_append]
    exact .retaining hCount (ih (by omega) (by omega))

/-- Failing the rest of the roots changes nothing of what is open. -/
theorem opens_failures {ds : List Deed} (h : Opens true 0 ds) (failed : Bool) (reason : String)
    (reasons : List String) :
    Opens failed 0 ((reason :: reasons).map (fun r => .mark (.fail r)) ++ ds) := by
  induction reasons generalizing failed reason with
  | nil => exact .failing reason h
  | cons next rest ih => exact .failing reason (ih true next)

/-- **A task starts** with deeds that open it. -/
theorem opens_rootDeeds (b : Backend) (buffer : Nat) (root : Message) (actions : List Action) :
    Opens false 0 (rootDeeds b buffer root actions) := by
  unfold rootDeeds
  generalize rootFailures b buffer root actions = failures
  generalize rootInputs b buffer root actions = inputs
  cases inputs with
  | nil =>
    cases failures with
    | nil => exact .nothing _
    | cons reason reasons => exact opens_failures .failed false reason reasons
  | cons input inputs =>
    -- all references are taken before the first runnable is queued
    have hRuns : ∀ failed, Opens failed 0 (((input :: inputs).map fun _ => .mark .retain) ++
        .mark .flush :: (input :: inputs).map fun (a, input) => .queue a input) := by
      intro failed
      obtain ⟨hClosing, hOwed⟩ := closing_queue (input :: inputs)
      have hSome : 1 ≤ owed ((input :: inputs).map fun (a, input) => .queue a input) := by
        rw [hOwed, List.length_cons]
        omega
      rw [List.map_const']
      refine opens_retain (Closing.cons rfl hClosing hSome) (Int.le_refl 0) ?_ ?_
      · rw [owed_flush, hOwed, Int.zero_add]
      · rw [owed_flush]
        exact hSome
    cases failures with
    | nil => exact hRuns false
    | cons reason reasons => exact opens_failures (hRuns true) false reason reasons

end Deed

/-! ## The two stages of a task -/

/-- How a task stands with its books: either it is being started by the one errand there is for it,
or it is worked on, by duties that hold its references. -/
inductive Stage (t : Task) (ds : Multiset Duty) : Prop
  | opening {i : Nat} {deeds : List Deed} (hDuties : ds = Duty.ofDeeds i deeds)
      (hOpens : Opens (t.status = .error) t.pending deeds)
      (hStatus : t.status = .idle ∨ t.status = .error)
  | working (hOrderly : ∀ d ∈ ds, d.Orderly) (hPending : t.pending = Duty.allHeld ds)
      (hFinished : t.status = .finished → t.pending = 0)
      (hDone : t.pending = 0 → t.status.isTerminal = true)

namespace Stage

variable {t : Task} {ds : Multiset Duty}

/-- The pending actions are the references that are held. -/
theorem pending_eq (h : Stage t ds) : t.pending = Duty.allHeld ds := by
  cases h with
  | opening hDuties hOpens _ => rw [hDuties, Duty.allHeld_ofDeeds, hOpens.owed_eq]
  | working _ hPending _ _ => exact hPending

/-- A task that has finished has no pending actions. -/
theorem pending_of_finished (h : Stage t ds) (hFinished : t.status = .finished) :
    t.pending = 0 := by
  cases h with
  | opening _ _ hStatus =>
    rw [hFinished] at hStatus
    exact absurd hStatus (by simp)
  | working _ _ hNone _ => exact hNone hFinished

/-- When nothing is held and no errand is left, the task has ended. -/
theorem isTerminal_of_over (h : Stage t ds)
    (hOver : ∀ d ∈ ds, ∃ e, d = .running e ∧ e.phase = .doing []) :
    t.pending = 0 ∧ t.status.isTerminal = true := by
  have hNothing : Duty.allHeld ds = 0 := by
    refine Multiset.sum_eq_zero fun x hx => ?_
    obtain ⟨d, hd, rfl⟩ := Multiset.mem_map.mp hx
    obtain ⟨e, rfl, hPhase⟩ := hOver d hd
    simp only [Duty.held, hPhase, owed_nil]
  have hPending : t.pending = 0 := h.pending_eq.trans hNothing
  refine ⟨hPending, ?_⟩
  cases h with
  | working _ _ _ hDone => exact hDone hPending
  | @opening i deeds hDuties hOpens hStatus =>
    -- the errand is gone, so the task failed while it was started
    cases deeds with
    | cons x rest =>
      obtain ⟨e, he, -⟩ := hOver (.errand i (x :: rest)) (by simp [hDuties, Duty.ofDeeds])
      exact absurd he (by simp)
    | nil =>
      generalize hFailed : decide (t.status = .error) = failed at hOpens
      generalize t.pending = n at hOpens
      cases hOpens with
      | failed =>
        rw [of_decide_eq_true hFailed]
        rfl
      | ready hCount hOwed =>
        rw [owed_nil] at hOwed
        omega

/-- A state that is kept whatever happens is an end. -/
theorem isTerminal_of_isFinal {s : TaskStatus} (h : s.isFinal = true) : s.isTerminal = true := by
  cases s <;> first | rfl | exact absurd h (by decide)

/-- A task with pending actions does not finish. -/
theorem admitted_ne_finished {t : Task} (h : 1 ≤ t.pending) (status : TaskStatus) :
    t.admitted status ≠ .finished := by
  unfold Task.admitted
  split
  · simp
  · next hOther =>
    intro hFinished
    exact hOther ⟨hFinished, by omega⟩

/-- A task without pending actions ends when it is concluded. -/
theorem conclude_ends (now : Int64) (h : t.pending = 0) :
    (t.conclude now).pending = 0 ∧ (t.conclude now).status.isTerminal = true := by
  unfold Task.conclude
  generalize hFull : (if t.hasProgress ∧ t.status ≠ .error then
    { t with progress := Decimal.Binary.one .single } else t) = full
  have hCount : full.pending = 0 := by
    rw [← hFull]
    split <;> exact h
  -- the last reference is gone: nothing stands in the way of finishing
  rcases full.transition_cases now .finished "" with ⟨hFinal, hSame⟩ | ⟨-, _, _, _, hNew⟩
  · rw [hSame]
    exact ⟨hCount, isTerminal_of_isFinal hFinal⟩
  · rw [hNew]
    refine ⟨hCount, ?_⟩
    show (full.admitted .finished).isTerminal = true
    rw [Task.admitted, if_neg (by omega)]
    rfl

/-- **A step of a task that holds a reference** changes the count by what the step weighs, and the
task finishes with the last reference only. -/
theorem apply_mark (now : Int64) {s : TaskStep} (hSome : 1 ≤ t.pending)
    (hFinished : t.status = .finished → t.pending = 0) :
    (s.apply now t).pending = t.pending - (Deed.mark s).weight ∧
      ((s.apply now t).status = .finished → (s.apply now t).pending = 0) ∧
      ((s.apply now t).pending = 0 → (s.apply now t).status.isTerminal = true) := by
  -- a task that holds a reference has not finished, and a step that keeps it does not change that
  have hLive : t.status ≠ .finished := fun h => by have := hFinished h; omega
  cases s with
  | retain =>
    refine ⟨?_, fun h => absurd h hLive, ?_⟩
    · simp only [TaskStep.apply, Deed.weight]
      omega
    · intro h
      simp only [TaskStep.apply] at h
      omega
  | appendLog | setProgress | flush =>
    refine ⟨(Int.sub_zero _).symm, fun h => absurd h hLive, fun h => ?_⟩
    simp only [TaskStep.apply] at h
    omega
  | setStatus status remark =>
    rw [TaskStep.apply]
    rcases t.transition_cases now status remark with ⟨-, hSame⟩ | ⟨-, _, _, _, hNew⟩
    · rw [hSame]
      exact ⟨(Int.sub_zero _).symm, hFinished, fun h => by omega⟩
    · rw [hNew]
      exact ⟨(Int.sub_zero _).symm, fun h => absurd h (admitted_ne_finished hSome status),
        fun h => absurd (show t.pending = 0 from h) (by omega)⟩
  -- the last reference is let go here, so here the task is concluded
  | release =>
    have hLess : max (t.pending - 1) 0 = t.pending - 1 := by omega
    simp only [TaskStep.apply, Task.release, hLess, Deed.weight]
    split
    · next hLast =>
      obtain ⟨hPending, hEnded⟩ :=
        conclude_ends (t := { t with pending := t.pending - 1 }) now hLast
      exact ⟨hPending.trans hLast.symm, fun _ => hPending, fun _ => hEnded⟩
    · next hMore => exact ⟨rfl, fun h => absurd h hLive, fun h => absurd h hMore⟩

/-- An execution that goes on by itself keeps the reference of its runnable, in deeds if it has come
to any, and its step of the task neither takes nor lets go of one. -/
theorem next_books {u : Setup} {j : Job} {taskId : String} {r : Runnable} {p p' : Phase}
    {s : Option TaskStep} (h : Phase.Next u j taskId r p s p') :
    (Duty.running ⟨r, p⟩).held = 1 ∧ (Duty.running ⟨r, p'⟩).Orderly ∧
      (Duty.running ⟨r, p'⟩).held = 1 ∧ ∀ x, s = some x → (Deed.mark x).weight = 0 := by
  have hEnds : ∀ {ds : List Deed}, Runnable.Ends ds →
      (Duty.running ⟨r, .doing ds⟩).Orderly ∧ (Duty.running ⟨r, .doing ds⟩).held = 1 :=
    fun h => ⟨⟨h.closing, Or.inr h.last⟩, h.owed⟩
  -- a fault, an output and a crash come to deeds, everything else goes on as before
  cases h with
  | unknown now | refused now | refuse _ now | crash _ now =>
    obtain ⟨hOrderly, hHeld⟩ := hEnds (Runnable.ends_afterFault r now _)
    exact ⟨rfl, hOrderly, hHeld, by simp⟩
  | finish result now =>
    obtain ⟨hOrderly, hHeld⟩ := hEnds (Runnable.ends_afterOutput r u.site.backend
      u.selectionBuffer (result now))
    exact ⟨rfl, hOrderly, hHeld, by simp⟩
  | notice reason =>
    obtain ⟨hOrderly, hHeld⟩ := hEnds (Runnable.ends_afterCrash r reason)
    exact ⟨rfl, hOrderly, hHeld, by simp⟩
  | ready | report =>
    refine ⟨rfl, trivial, rfl, fun x hx => ?_⟩
    rw [← Option.some.inj hx]
    rfl
  | crashed | wait | sleep | wake | prune => exact ⟨rfl, trivial, rfl, by simp⟩

/-- A turn at a duty of a task that is worked on. -/
theorem working_turn {u : Setup} {m : Machine} {live : LiveTask} {d : Duty}
    {begun : Option Runnable} {record : Task} {new old : Multiset Duty}
    (hTurn : Machine.Turn u m live d begun record new)
    (hOrderly : ∀ d' ∈ d ::ₘ old, d'.Orderly)
    (hPending : live.record.pending = Duty.allHeld (d ::ₘ old))
    (hFinished : live.record.status = .finished → live.record.pending = 0)
    (hDone : live.record.pending = 0 → live.record.status.isTerminal = true) :
    Stage record (new + old) := by
  have hHead : d.Orderly := hOrderly d (Multiset.mem_cons_self d old)
  have hTail : ∀ d' ∈ old, d'.Orderly := fun d' hd' => hOrderly d' (Multiset.mem_cons_of_mem hd')
  have hRest : 0 ≤ Duty.allHeld old := Duty.allHeld_nonneg hTail
  rw [Duty.allHeld_cons] at hPending
  -- it is enough to look at what is put back
  have hBack : (∀ d' ∈ new, d'.Orderly) → (∀ d' ∈ new + old, d'.Orderly) := by
    intro hNew d' hd'
    rcases Multiset.mem_add.mp hd' with hd' | hd'
    · exact hNew d' hd'
    · exact hTail d' hd'
  have hKept : (∀ d' ∈ new, d'.Orderly) → Duty.allHeld new = d.held → record = live.record →
      Stage record (new + old) := by
    rintro hNew hSame rfl
    refine .working (hBack hNew) ?_ hFinished hDone
    rw [Duty.allHeld_add, hSame, hPending]
  cases hTurn with
  -- these put back what they took
  | pick r =>
    refine hKept (fun d' hd' => ?_) (Duty.allHeld_singleton _) rfl
    rw [Multiset.mem_singleton.mp hd']
    trivial
  | away r =>
    have hAway := closing_turnAway "job removed"
    exact hKept (fun d' hd' => Duty.orderly_of_mem_ofDeeds hAway hd')
      (Duty.allHeld_ofDeeds r.task _) rfl
  | @advance e now s p hNext =>
    obtain ⟨hOne, hGoesOn, hHeld, hLight⟩ := next_books hNext
    have hOne : (Duty.running e).held = 1 := hOne
    have hNew : ∀ d' ∈ ({.running { e with phase := p }} : Multiset Duty), d'.Orderly := by
      intro d' hd'
      rw [Multiset.mem_singleton.mp hd']
      exact hGoesOn
    rw [← Duty.allHeld_singleton] at hHeld
    cases s with
    | none => exact hKept hNew (hHeld.trans hOne.symm) rfl
    | some x =>
      obtain ⟨hCount, hFin, hEnd⟩ := apply_mark now (s := x) (by omega) hFinished
      refine .working (hBack hNew) ?_ hFin hEnd
      rw [Option.elim_some, hCount, hLight x rfl, Duty.allHeld_add, hHeld, hPending, hOne]
      omega
  | ended e hOver =>
    have hNothing : (Duty.running e).held = 0 := by simp only [Duty.held, hOver, owed_nil]
    exact hKept (fun d' hd' => absurd hd' (Multiset.notMem_zero d')) hNothing.symm rfl
  -- a mark changes the count by what it weighs, which is what the rest of the deeds owes less
  | mark d now hDeeds =>
    obtain ⟨hClosing, hHeld⟩ := hHead.closing hDeeds
    obtain ⟨hNew, hLeft⟩ := hHead.resume [] hDeeds (Or.inl rfl) hClosing.2
    rw [List.nil_append] at hNew hLeft
    have hSome := hClosing.1
    obtain ⟨hCount, hFin, hEnd⟩ := apply_mark now (by omega) hFinished
    refine .working (hBack hNew) ?_ hFin hEnd
    rw [owed_cons] at hHeld
    rw [hCount, Duty.allHeld_add, hLeft, hPending, hHeld]
    omega
  -- a runnable that is queued takes along the reference that was reserved for it
  | queue d hDeeds =>
    obtain ⟨hClosing, hHeld⟩ := hHead.closing hDeeds
    obtain ⟨hNew, hLeft⟩ := hHead.resume [] hDeeds (Or.inl rfl) hClosing.2
    rw [List.nil_append] at hNew hLeft
    refine hKept (fun d' hd' => ?_) ?_ rfl
    · rcases Multiset.mem_cons.mp hd' with rfl | hd'
      · trivial
      · exact hNew d' hd'
    · rw [Duty.allHeld_cons, hLeft, hHeld]
      rfl
  | refuse d hDeeds =>
    obtain ⟨hClosing, hHeld⟩ := hHead.closing hDeeds
    obtain ⟨hNew, hLeft⟩ :=
      hHead.resume refused hDeeds (Or.inr (by simp)) (closing_refused hClosing.2)
    refine hKept hNew ?_ rfl
    rw [hLeft, hHeld, owed_append, owed_refused]
    rfl

/-- A turn at the errand that starts a task. -/
theorem opening_turn {u : Setup} {m : Machine} {live : LiveTask} {i : Nat} {deeds : List Deed}
    {begun : Option Runnable} {record : Task} {new : Multiset Duty} {failed : Bool} {n : Int}
    (hTurn : Machine.Turn u m live (.errand i deeds) begun record new)
    (hOpens : Opens failed n deeds) (hFailed : decide (live.record.status = .error) = failed)
    (hCount : live.record.pending = n)
    (hStatus : live.record.status = .idle ∨ live.record.status = .error) : Stage record new := by
  cases hOpens with
  -- once all references are taken, the errand is a duty like others
  | ready hSome hOwed hClosing =>
    have hWork : Stage record (new + 0) := working_turn hTurn (by simpa [Duty.Orderly] using hClosing)
      (by simp [Duty.held, hCount, hOwed])
      (fun h => by rw [h] at hStatus; exact absurd hStatus (by simp)) (fun h => by omega)
    rwa [add_zero] at hWork
  | failed => cases hTurn <;> next hDeeds => exact absurd hDeeds (by simp [Duty.deeds])
  -- a failure counts nothing, and is not undone
  | failing reason h =>
    cases hTurn with
    | @mark _ now s rest hDeeds =>
      obtain ⟨hMark, rfl⟩ := List.cons.inj (Option.some.inj hDeeds)
      obtain rfl := Deed.mark.inj hMark
      obtain ⟨hError, hPending⟩ : (live.record.transition now .error reason).status = .error ∧
          (live.record.transition now .error reason).pending = live.record.pending := by
        rcases live.record.transition_cases now .error reason with
          ⟨hFinal, hSame⟩ | ⟨-, _, _, _, hNew⟩
        · rw [hSame]
          refine ⟨hStatus.resolve_left fun hIdle => ?_, rfl⟩
          rw [hIdle] at hFinal
          exact absurd hFinal (by decide)
        · rw [hNew]
          exact ⟨by simp [Task.admitted], rfl⟩
      refine .opening rfl ?_ (Or.inr hError)
      simp only [TaskStep.apply, TaskStep.fail, hError, hPending, hCount, decide_true]
      exact h
    | queue _ hDeeds => exact absurd hDeeds (by simp [Duty.deeds])
    | refuse _ hDeeds => exact absurd hDeeds (by simp [Duty.deeds])
  -- nothing to run and no failure: the task ends without a reference
  | nothing remark =>
    cases hTurn with
    | @mark _ now s rest hDeeds =>
      obtain ⟨hMark, rfl⟩ := List.cons.inj (Option.some.inj hDeeds)
      obtain rfl := Deed.mark.inj hMark
      have hIdle : live.record.status = .idle := by
        rcases hStatus with hIdle | hError
        · exact hIdle
        · exact absurd (hError ▸ hFailed) (by simp)
      obtain ⟨hEnded, hZero⟩ : (live.record.transition now .finished remark).status = .finished ∧
          (live.record.transition now .finished remark).pending = 0 := by
        rcases live.record.transition_cases now .finished remark with
          ⟨hFinal, -⟩ | ⟨-, _, _, _, hNew⟩
        · rw [hIdle] at hFinal
          exact absurd hFinal (by decide)
        · have hAdmitted : live.record.admitted .finished = .finished := by
            rw [Task.admitted, if_neg (by omega)]
          rw [hNew]
          exact ⟨hAdmitted, hCount⟩
      refine .working (fun d hd => absurd hd (Multiset.notMem_zero d)) hZero (fun _ => hZero)
        fun _ => ?_
      simp only [TaskStep.apply, hEnded]
      rfl
    | queue _ hDeeds => exact absurd hDeeds (by simp [Duty.deeds])
    | refuse _ hDeeds => exact absurd hDeeds (by simp [Duty.deeds])
  | retaining hSome h =>
    cases hTurn with
    | @mark _ now s rest hDeeds =>
      obtain ⟨hMark, rfl⟩ := List.cons.inj (Option.some.inj hDeeds)
      obtain rfl := Deed.mark.inj hMark
      refine .opening rfl ?_ hStatus
      simp only [TaskStep.apply, hFailed, hCount]
      exact h
    | queue _ hDeeds => exact absurd hDeeds (by simp [Duty.deeds])
    | refuse _ hDeeds => exact absurd hDeeds (by simp [Duty.deeds])

/-- **A turn at a duty of a task** keeps the books of the task. -/
theorem turn {u : Setup} {m : Machine} {live : LiveTask} {d : Duty} {begun : Option Runnable}
    {record : Task} {new old : Multiset Duty} (h : Stage live.record (d ::ₘ old))
    (hTurn : Machine.Turn u m live d begun record new) : Stage record (new + old) := by
  cases h with
  | working hOrderly hPending hFinished hDone =>
    exact working_turn hTurn hOrderly hPending hFinished hDone
  | @opening i deeds hDuties hOpens hStatus =>
    cases deeds with
    | nil => exact absurd hDuties Multiset.cons_ne_zero
    | cons x rest =>
      obtain ⟨rfl, rfl⟩ := (Multiset.singleton_eq_cons_iff old).mp hDuties.symm
      rw [add_zero]
      exact opening_turn hTurn hOpens rfl rfl hStatus

/-- A new task keeps its books. -/
theorem birth {u : Setup} {n : Nat} {started : Option (Job × Event)} {live : LiveTask}
    {new : Multiset Duty} (h : Machine.Birth u n started live new) : Stage live.record new := by
  cases h with
  | launched j e hJob hRecord =>
    rw [hRecord]
    exact .opening rfl (opens_rootDeeds _ _ _ _) (Or.inl rfl)
  | submitted j r hTask hRecord =>
    rw [hRecord]
    -- a task that is submitted was retained, so its runnable holds one reference
    refine .working (fun d hd => ?_) ?_ (fun h => ?_) fun h => ?_
    · rw [Multiset.mem_singleton.mp hd]
      trivial
    · rw [Duty.allHeld_singleton]
      rfl
    · exact absurd h (by simp [Job.freshTask])
    · exact absurd h (by simp)
  | declined j hRecord =>
    rw [hRecord]
    have hAway := closing_turnAway "job removed"
    refine .working (fun d hd => Duty.orderly_of_mem_ofDeeds hAway hd) ?_ (fun h => ?_) fun h => ?_
    · rw [Duty.allHeld_ofDeeds]
      rfl
    · exact absurd h (by simp [Job.freshTask])
    · exact absurd h (by simp)

end Stage

/-! ## The books of all tasks -/

namespace Machine

/-- The books of all tasks are kept, and no snapshot tells of a finish with pending actions. -/
structure Accounted (m : Machine) : Prop where
  sound     : m.Sound
  stages    : ∀ i t, m.floor.tasks[i]? = some t → Stage t.record (m.dutiesOf i)
  snapshots : ∀ x ∈ m.floor.snapshots, x.status = .finished → x.pending = 0

/-- **Every step keeps the books of all tasks.** -/
theorem Accounted.step {u : Setup} {m m' : Machine} {s : MachineStep} (h : m.Accounted)
    (hRouter : s = .endRouter → m.floor.main = []) (hStep : m.step u s = some m') :
    m'.Accounted := by
  have hMove := step_move h.sound hRouter hStep
  -- a step is a turn of one task, the birth of one, or leaves the record and duties of a task
  have hStages : ∀ i t, m'.floor.tasks[i]? = some t → Stage t.record (m'.dutiesOf i) := by
    intro i t ht
    cases hMove.atTask h.sound ht with
    | idle ht₀ _ hRecord hDuties _ =>
      rw [hRecord, hDuties]
      exact h.stages i _ ht₀
    | turn ht₀ _ _ hDuties hTurn hDuties' =>
      have hHere := h.stages i _ ht₀
      rw [hDuties] at hHere
      rw [hDuties']
      exact hHere.turn hTurn
    | birth _ hBirth => exact Stage.birth hBirth
  refine ⟨hMove.sound h.sound hStep, hStages, fun x hx hFinished => ?_⟩
  rcases hMove.mem_snapshots hx with hx | ⟨i, t, ht, rfl⟩
  · exact h.snapshots x hx hFinished
  · exact (hStages i t ht).pending_of_finished hFinished

end Machine

/-! ## Where references are -/

/-- The runnables of a task in a queue. -/
def runnablesOf (i : Nat) (queue : List Runnable) : Nat := queue.countP fun r => r.task = i

/-- The runnable of a task that a dispatch loop has taken from its queue. -/
def DispatchLoop.runnablesOf (i : Nat) : DispatchLoop Runnable → Nat
  | .matching r => if r.task = i then 1 else 0
  | _ => 0

/-- The deeds that an execution has left. -/
def Execution.deedsLeft (e : Execution) : List Deed :=
  match e.phase with
  | .doing ds => ds
  | _ => []

/-- Whether an execution has let go of the reference of its runnable, the last thing that it
does. -/
def Execution.isOver (e : Execution) : Bool :=
  match e.phase with
  | .doing [] => true
  | _ => false

/-- The runnable of a task that a worker holds: it was handed it, or executes it. -/
def Worker.runnablesOf (i : Nat) : Worker Runnable Execution → Nat
  | .handed r => if r.task = i then 1 else 0
  | .busy e => if e.runnable.task = i ∧ e.isOver = false then 1 else 0
  | _ => 0

/-- The references of a task that were taken by deeds, and that deeds have still to hand to a
runnable or to let go. -/
def Deed.reservedOf (i task : Nat) (ds : List Deed) : Int := if task = i then owed ds else 0

/-- The references of a task that the execution of a worker has reserved, besides the one of its
runnable, which the last of its deeds lets go. -/
def Worker.reservedOf (i : Nat) : Worker Runnable Execution → Int
  | .busy e => Deed.reservedOf i e.runnable.task e.deedsLeft.dropLast
  | _ => 0

/-- What a listener does one after another. -/
def Ear.errand? : Ear → Option Errand
  | .busy e => some e
  | _ => none

/-- What the router does one after another. -/
def Router.errand? : Router → Option Errand
  | .busy e => some e
  | _ => none

/-- The deed that an errand does next, with the task that it is for. -/
def Errand.deed? (e : Errand) : Option (Nat × Deed) := e.deeds.head?.map (e.task, ·)

/-- The deed that an execution does next, with the task that it is for. -/
def Execution.deed? (e : Execution) : Option (Nat × Deed) :=
  e.deedsLeft.head?.map (e.runnable.task, ·)

/-- The references of a task that an errand has reserved. -/
def Errand.reservedOf (i : Nat) (e : Errand) : Int := Deed.reservedOf i e.task e.deeds

namespace Machine

/-- The runnables of a task in the main queue. -/
def queuedOf (m : Machine) (i : Nat) : Nat := runnablesOf i m.floor.main

/-- The runnables of a task in the queues of dispatchers and with their loops. -/
def dispatchedOf (m : Machine) (i : Nat) : Nat :=
  (m.benches.map fun b => runnablesOf i b.queue + b.loop.runnablesOf i).sum

/-- The runnables of a task that workers hold. -/
def handsOf (m : Machine) (i : Nat) : Nat :=
  (m.benches.map fun b => (b.crew.map (Worker.runnablesOf i)).sum).sum

/-- What listeners, the router and callers do one after another. -/
def errands (m : Machine) : List Errand :=
  [m.ears.tree, m.ears.attributes, m.ears.timers, m.ears.jobs].filterMap Ear.errand? ++
    m.router.errand?.toList ++ m.callers

/-- The references of a task that were taken and are not yet handed to a runnable or let go. -/
def reservedOf (m : Machine) (i : Nat) : Int :=
  (m.benches.map fun b => (b.crew.map (Worker.reservedOf i)).sum).sum +
    (m.errands.map (Errand.reservedOf i)).sum

end Machine

namespace Duty

/-- The references of a task that duties hold. -/
def heldOf (i : Nat) (ds : Multiset Duty) : Int := allHeld (ds.filter fun d => d.task = i)

variable {i : Nat}

@[simp]
theorem heldOf_zero : heldOf i 0 = 0 := rfl

@[simp]
theorem heldOf_add (ds ds' : Multiset Duty) : heldOf i (ds + ds') = heldOf i ds + heldOf i ds' := by
  simp [heldOf]

theorem heldOf_singleton (d : Duty) : heldOf i {d} = if d.task = i then d.held else 0 := by
  rw [heldOf, Multiset.filter_singleton]
  split
  · exact allHeld_singleton d
  · rfl

theorem heldOf_sum (l : List (Multiset Duty)) : heldOf i l.sum = (l.map (heldOf i)).sum := by
  induction l with
  | nil => rfl
  | cons ds rest ih => rw [List.sum_cons, heldOf_add, ih, List.map_cons, List.sum_cons]

/-- The runnables in a queue hold one reference each. -/
theorem heldOf_queueDuties (queue : List Runnable) :
    heldOf i (queueDuties queue) = runnablesOf i queue := by
  induction queue with
  | nil => rfl
  | cons r rest ih =>
    rw [queueDuties_cons, ← Multiset.singleton_add, heldOf_add, heldOf_singleton, ih, runnablesOf,
      runnablesOf, List.countP_cons]
    by_cases h : r.task = i
    · simp only [task, held, h, if_true, decide_true]
      omega
    · simp [task, h]

/-- What a loop holds of a task is the runnable in its hands. -/
theorem heldOf_loop (loop : DispatchLoop Runnable) :
    heldOf i loop.duties = loop.runnablesOf i := by
  cases loop with
  | matching r =>
    rw [DispatchLoop.duties, heldOf_singleton, DispatchLoop.runnablesOf, task, held]
    split <;> rfl
  | receiving | ended => rfl

/-- A worker holds the reference of its runnable and those that it has reserved. -/
theorem heldOf_worker {w : Worker Runnable Execution}
    (hOrderly : ∀ e, w = .busy e → e.runnable.task = i → (Duty.running e).Orderly) :
    heldOf i w.duties = w.runnablesOf i + w.reservedOf i := by
  cases w with
  | handed r =>
    rw [Worker.duties, heldOf_singleton]
    by_cases hTask : r.task = i <;>
      simp [task, held, Worker.runnablesOf, Worker.reservedOf, hTask]
  | busy e =>
    rw [Worker.duties, heldOf_singleton]
    simp only [task, Worker.runnablesOf, Worker.reservedOf, Deed.reservedOf]
    by_cases hTask : e.runnable.task = i
    · have hHere := hOrderly e rfl hTask
      simp only [hTask, if_true, true_and]
      obtain ⟨r, phase⟩ := e
      cases phase with
      | doing ds =>
        rcases hHere.2 with rfl | ⟨before, rfl⟩
        · rfl
        -- the release at the end stands for the runnable, and what is before it was reserved
        · have hGoes : (Execution.mk r (.doing (before ++ [.mark .release]))).isOver = false := by
            cases before <;> rfl
          simp only [held, hGoes, if_true, Execution.deedsLeft, List.dropLast_concat, owed_append]
          exact add_comm _ _
      | _ => rfl
    · simp only [hTask, if_false, false_and]
      rfl
  | offering | waiting | gone => rfl

/-- What an errand holds of a task is what it has reserved. -/
theorem heldOf_errand (e : Errand) : heldOf i e.duties = e.reservedOf i := by
  obtain ⟨t, deeds, launches⟩ := e
  cases deeds with
  | nil => simp [Errand.duties, ofDeeds, Errand.reservedOf, Deed.reservedOf]
  | cons d ds =>
    rw [Errand.duties, ofDeeds, heldOf_singleton, Errand.reservedOf, Deed.reservedOf, task, held]

/-- Listeners hold the references that their errands have reserved. -/
theorem heldOf_ears (l : List Ear) :
    (l.map fun ear => heldOf i ear.duties).sum =
      ((l.filterMap Ear.errand?).map (Errand.reservedOf i)).sum := by
  induction l with
  | nil => rfl
  | cons ear rest ih =>
    rw [List.map_cons, List.sum_cons, ih]
    cases ear with
    | busy e =>
      have hFound : Ear.errand? (.busy e) = some e := rfl
      rw [Ear.duties, heldOf_errand, List.filterMap_cons_some hFound, List.map_cons, List.sum_cons]
    | _ => exact Int.zero_add _

/-- A sum of which each member is a natural number and something more. -/
theorem sum_split {α : Type} {f h : α → Int} {g : α → Nat} {l : List α}
    (hSplit : ∀ a ∈ l, f a = g a + h a) :
    (l.map f).sum = ((l.map g).sum : Nat) + (l.map h).sum := by
  induction l with
  | nil => rfl
  | cons a rest ih =>
    have hHead := hSplit a (by simp)
    have hTail := ih fun b hb => hSplit b (by simp [hb])
    simp only [List.map_cons, List.sum_cons, hHead, hTail]
    omega

end Duty

namespace Machine

/-- The duty of a worker is one of the duties of the machine. -/
theorem mem_duties_of_worker {m : Machine} {b : Bench} {w : Worker Runnable Execution} {d : Duty}
    (hb : b ∈ m.benches) (hw : w ∈ b.crew) (hd : d ∈ w.duties) : d ∈ m.duties := by
  obtain ⟨n, hn⟩ := List.mem_iff_getElem?.mp hb
  obtain ⟨k, hk⟩ := List.mem_iff_getElem?.mp hw
  obtain ⟨rest, hSum, -, -⟩ := exists_sum_rest Dispatcher.duties hn
  obtain ⟨rest', hSum', -⟩ := Dispatcher.exists_duties_rest hk
  simp only [duties, hSum, hSum', Multiset.mem_add]
  tauto

/-- What a worker executes is one of them. -/
theorem mem_duties_of_execution {m : Machine} {n w : Nat} {b : Bench} {e : Execution}
    (hb : m.benches[n]? = some b) (he : b.execution? w = some e) : .running e ∈ m.duties :=
  mem_duties_of_worker (List.mem_of_getElem? hb)
    (List.mem_of_getElem? (Dispatcher.crew_of_execution? he)) (by simp [Worker.duties])

/-- **The references of a task** are where runnables are and where deeds have reserved them. -/
theorem heldOf_duties {m : Machine} {i : Nat}
    (hOrderly : ∀ e, .running e ∈ m.dutiesOf i → (Duty.running e).Orderly) :
    Duty.heldOf i m.duties =
      m.queuedOf i + m.dispatchedOf i + m.handsOf i + m.reservedOf i := by
  -- part by part: what is held there is runnables and what is reserved
  have hBench : ∀ b ∈ m.benches, Duty.heldOf i b.duties =
      ((runnablesOf i b.queue + b.loop.runnablesOf i + (b.crew.map (Worker.runnablesOf i)).sum :
        Nat) : Int) + (b.crew.map (Worker.reservedOf i)).sum := by
    intro b hb
    have hCrew := Duty.sum_split (f := fun w => Duty.heldOf i w.duties) (l := b.crew)
      (g := Worker.runnablesOf i) (h := Worker.reservedOf i) fun w hw =>
        Duty.heldOf_worker fun e he hTask => hOrderly e (Multiset.mem_filter.mpr
          ⟨mem_duties_of_worker hb hw (by simp [he, Worker.duties]), hTask⟩)
    rw [Dispatcher.duties, Duty.heldOf_add, Duty.heldOf_add, Duty.heldOf_sum, List.map_map,
      Duty.heldOf_queueDuties, Duty.heldOf_loop]
    have hSame : (b.crew.map (Duty.heldOf i ∘ Worker.duties)).sum =
        (b.crew.map fun w => Duty.heldOf i w.duties).sum := rfl
    rw [hSame, hCrew]
    omega
  have hBenches := Duty.sum_split (f := fun b : Bench => Duty.heldOf i b.duties) hBench
  have hRouter : Duty.heldOf i m.router.duties =
      (m.router.errand?.toList.map (Errand.reservedOf i)).sum := by
    cases m.router with
    | busy e => simp [Router.duties, Router.errand?, Duty.heldOf_errand]
    | waiting | ended => rfl
  have hCallers : (m.callers.map (Duty.heldOf i ∘ Errand.duties)).sum =
      (m.callers.map (Errand.reservedOf i)).sum :=
    congrArg List.sum (List.map_congr_left fun e _ => Duty.heldOf_errand e)
  have hEars : Duty.heldOf i m.ears.duties =
      (([m.ears.tree, m.ears.attributes, m.ears.timers, m.ears.jobs].filterMap Ear.errand?).map
        (Errand.reservedOf i)).sum := by
    rw [← Duty.heldOf_ears]
    simp only [Ears.duties, Duty.heldOf_add, List.map_cons, List.map_nil, List.sum_cons,
      List.sum_nil]
    omega
  -- of a dispatcher, workers are counted apart from its queue and its loop
  have hApart : (m.benches.map fun b => runnablesOf i b.queue + b.loop.runnablesOf i +
      (b.crew.map (Worker.runnablesOf i)).sum).sum = m.dispatchedOf i + m.handsOf i :=
    List.sum_map_add
  have hSame : (m.benches.map (Duty.heldOf i ∘ Dispatcher.duties)).sum =
      (m.benches.map fun b : Bench => Duty.heldOf i b.duties).sum := rfl
  simp only [duties, Duty.heldOf_add, Duty.heldOf_sum, List.map_map, hRouter, hCallers, hEars,
    Duty.heldOf_queueDuties, hSame, hBenches, hApart, reservedOf, errands, queuedOf,
    List.map_append, List.sum_append]
  omega

/-! ## Deeds that are performed, errands that are over -/

/-- The deed that a step performs, with the task that it is for. -/
def performs (m : Machine) : MachineStep → Option (Nat × Deed)
  | .listen c => (m.ears.get c).errand?.bind Errand.deed?
  | .route => m.router.errand?.bind Errand.deed?
  | .call n => (m.callers[n]?).bind Errand.deed?
  | .work n w => ((m.benches[n]?).bind (·.execution? w)).bind Execution.deed?
  | _ => none

/-- Nothing of a task is left anywhere: no runnable, and no call of `launch` or of another errand
with something to do for it. -/
structure Idle (m : Machine) (i : Nat) : Prop where
  queued     : m.queuedOf i = 0
  dispatched : m.dispatchedOf i = 0
  hands      : m.handsOf i = 0
  errands    : ∀ e ∈ m.errands, e.task = i → e.deeds = []

/-- The next deed of an errand is that of one of its duties. -/
theorem mem_duties_of_errand {e : Errand} {i : Nat} {x : Deed} (h : e.deed? = some (i, x)) :
    ∃ d ∈ e.duties, ∃ rest, d.task = i ∧ d.deeds = some (x :: rest) := by
  obtain ⟨t, deeds, launches⟩ := e
  cases deeds with
  | nil => exact absurd h (by simp [Errand.deed?])
  | cons y rest =>
    obtain ⟨rfl, rfl⟩ := Prod.mk.inj (Option.some.inj h)
    exact ⟨_, Multiset.mem_singleton_self _, rest, rfl, rfl⟩

/-- A deed that a step performs is the first of a duty. -/
theorem mem_duties_of_performs {m : Machine} {s : MachineStep} {i : Nat} {x : Deed}
    (h : m.performs s = some (i, x)) :
    ∃ d ∈ m.duties, ∃ rest, d.task = i ∧ d.deeds = some (x :: rest) := by
  cases s with
  | listen c =>
    obtain ⟨e, hEar, hDeed⟩ := Option.bind_eq_some_iff.mp h
    obtain ⟨d, hd, hFirst⟩ := mem_duties_of_errand hDeed
    refine ⟨d, ?_, hFirst⟩
    obtain ⟨rest, hEars, -⟩ := exists_ears_rest m.ears c
    -- a listener that has an errand is busy with it
    have hBusy : (m.ears.get c).duties = e.duties := by
      unfold Ear.errand? at hEar
      split at hEar
      · next e' hGet => rw [hGet, Option.some.inj hEar, Ear.duties]
      · exact absurd hEar (by simp)
    simp only [duties, hEars, hBusy, Multiset.mem_add]
    tauto
  | route =>
    obtain ⟨e, hRouter, hDeed⟩ := Option.bind_eq_some_iff.mp h
    obtain ⟨d, hd, hFirst⟩ := mem_duties_of_errand hDeed
    refine ⟨d, ?_, hFirst⟩
    have hBusy : m.router.duties = e.duties := by
      unfold Router.errand? at hRouter
      split at hRouter
      · next e' hGet => rw [hGet, Option.some.inj hRouter, Router.duties]
      · exact absurd hRouter (by simp)
    simp only [duties, hBusy, Multiset.mem_add]
    tauto
  | call n =>
    obtain ⟨e, hCaller, hDeed⟩ := Option.bind_eq_some_iff.mp h
    obtain ⟨d, hd, hFirst⟩ := mem_duties_of_errand hDeed
    refine ⟨d, ?_, hFirst⟩
    obtain ⟨rest, hCallers, -⟩ := exists_sum_rest Errand.duties hCaller
    simp only [duties, hCallers, Multiset.mem_add]
    tauto
  | work n w =>
    obtain ⟨e, hExecution, hDeed⟩ := Option.bind_eq_some_iff.mp h
    obtain ⟨b, hb, hBusy⟩ := Option.bind_eq_some_iff.mp hExecution
    refine ⟨.running e, mem_duties_of_execution hb hBusy, ?_⟩
    obtain ⟨r, phase⟩ := e
    cases phase with
    | doing ds =>
      cases ds with
      | nil => exact absurd hDeed (by simp [Execution.deed?, Execution.deedsLeft])
      | cons y rest =>
        obtain ⟨rfl, rfl⟩ := Prod.mk.inj (Option.some.inj hDeed)
        exact ⟨rest, rfl, rfl⟩
    | _ => exact absurd hDeed (by simp [Execution.deed?, Execution.deedsLeft])
  | _ => exact absurd h (by simp [performs])

/-- The places where duties are. -/
inductive Place (m : Machine) : Duty → Prop
  | main {r : Runnable} (hr : r ∈ m.floor.main) : Place m (.waiting r)
  | queue {b : Bench} {r : Runnable} (hb : b ∈ m.benches) (hr : r ∈ b.queue) : Place m (.waiting r)
  | loop {b : Bench} {r : Runnable} (hb : b ∈ m.benches) (hLoop : b.loop = .matching r) :
      Place m (.waiting r)
  | handed {b : Bench} {r : Runnable} (hb : b ∈ m.benches) (hw : .handed r ∈ b.crew) :
      Place m (.waiting r)
  | busy {b : Bench} {e : Execution} (hb : b ∈ m.benches) (hw : .busy e ∈ b.crew) :
      Place m (.running e)
  | errand {e : Errand} {i : Nat} {ds : List Deed} (he : e ∈ m.errands) (hTask : e.task = i)
      (hDeeds : e.deeds = ds) (hSome : ds ≠ []) : Place m (.errand i ds)

/-- The duties of an errand are in the hands of whoever carries it. -/
theorem place_of_errand {m : Machine} {e : Errand} {d : Duty} (he : e ∈ m.errands)
    (hd : d ∈ e.duties) : Place m d := by
  obtain ⟨hSome, rfl⟩ := Duty.mem_ofDeeds.mp hd
  exact .errand he rfl rfl hSome

/-- The duties of a listener are in its hands. -/
theorem place_of_ear {m : Machine} {ear : Ear} {d : Duty}
    (hEar : ear ∈ [m.ears.tree, m.ears.attributes, m.ears.timers, m.ears.jobs])
    (hd : d ∈ ear.duties) : Place m d := by
  cases ear with
  | busy e =>
    refine place_of_errand (e := e) ?_ hd
    exact List.mem_append_left _ (List.mem_append_left _ (List.mem_filterMap.mpr ⟨_, hEar, rfl⟩))
  | _ => exact absurd hd (Multiset.notMem_zero _)

/-- The duties of a dispatcher are queued there, in its loop or with its workers. -/
theorem place_of_bench {m : Machine} {b : Bench} {d : Duty} (hb : b ∈ m.benches)
    (hd : d ∈ b.duties) : Place m d := by
  simp only [Dispatcher.duties, Multiset.mem_add] at hd
  -- the duties of a dispatcher are in its queue, with its loop or with its crew
  rcases hd with (hQueue | hLoop) | hCrew
  · obtain ⟨r, hr, rfl⟩ := List.mem_map.mp (Multiset.mem_coe.mp hQueue)
    exact .queue hb hr
  · cases hMatching : b.loop with
    | matching r =>
      rw [hMatching] at hLoop
      rw [Multiset.mem_singleton.mp hLoop]
      exact .loop hb hMatching
    | _ =>
      rw [hMatching] at hLoop
      exact absurd hLoop (Multiset.notMem_zero _)
  · obtain ⟨w, hw, hDuty⟩ := mem_sum_map hCrew
    cases w with
    | handed r =>
      rw [Multiset.mem_singleton.mp hDuty]
      exact .handed hb hw
    | busy e =>
      rw [Multiset.mem_singleton.mp hDuty]
      exact .busy hb hw
    | _ => exact absurd hDuty (Multiset.notMem_zero _)

/-- Every duty is in its place. -/
theorem place_of_mem {m : Machine} {d : Duty} (h : d ∈ m.duties) : Place m d := by
  simp only [duties, Ears.duties, Multiset.mem_add] at h
  -- the sum of the duties has one summand for each kind of place
  rcases h with (((hMain | hBenches) | ((hTree | hAttributes) | hTimers) | hJobs) | hRouter) |
    hCallers
  · obtain ⟨r, hr, rfl⟩ := List.mem_map.mp (Multiset.mem_coe.mp hMain)
    exact .main hr
  · obtain ⟨b, hb, hDuty⟩ := mem_sum_map hBenches
    exact place_of_bench hb hDuty
  · exact place_of_ear (by simp) hTree
  · exact place_of_ear (by simp) hAttributes
  · exact place_of_ear (by simp) hTimers
  · exact place_of_ear (by simp) hJobs
  · cases hBusy : m.router with
    | busy e =>
      rw [hBusy] at hRouter
      exact place_of_errand (by simp [errands, hBusy, Router.errand?]) hRouter
    | _ =>
      rw [hBusy] at hRouter
      exact absurd hRouter (Multiset.notMem_zero _)
  · obtain ⟨e, he, hDuty⟩ := mem_sum_map hCallers
    exact place_of_errand (List.mem_append_right _ he) hDuty

/-- An errand is with a listener, the router or a caller. -/
theorem mem_errands {m : Machine} {e : Errand} :
    e ∈ m.errands ↔ (∃ c, m.ears.get c = .busy e) ∨ m.router = .busy e ∨ e ∈ m.callers := by
  have hEar : ∀ ear : Ear, ear.errand? = some e ↔ ear = .busy e := by
    intro ear
    cases ear <;> simp [Ear.errand?]
  have hRouter : m.router.errand? = some e ↔ m.router = .busy e := by
    cases m.router <;> simp [Router.errand?]
  simp only [errands, List.mem_append, List.mem_filterMap, List.mem_cons, List.not_mem_nil,
    or_false, Option.mem_toList, hEar, hRouter, or_assoc]
  refine or_congr ⟨?_, ?_⟩ Iff.rfl
  · rintro ⟨ear, rfl | rfl | rfl | rfl, hBusy⟩
    · exact ⟨.tree, hBusy⟩
    · exact ⟨.attributes, hBusy⟩
    · exact ⟨.timers, hBusy⟩
    · exact ⟨.jobs, hBusy⟩
  · rintro ⟨c, hBusy⟩
    refine ⟨m.ears.get c, ?_, hBusy⟩
    cases c <;> simp [Ears.get]

theorem mem_duties_of_errands {m : Machine} {e : Errand} {d : Duty} (he : e ∈ m.errands)
    (hd : d ∈ e.duties) : d ∈ m.duties := by
  simp only [duties, Multiset.mem_add]
  rcases mem_errands.mp he with ⟨c, hBusy⟩ | hBusy | hCaller
  · obtain ⟨rest, hEars, -⟩ := exists_ears_rest m.ears c
    rw [hEars, hBusy]
    exact Or.inl (Or.inl (Or.inr (Multiset.mem_add.mpr (Or.inl hd))))
  · rw [hBusy]
    exact Or.inl (Or.inr hd)
  · exact Or.inr (mem_sum_map_of_mem hCaller hd)

/-- What is in one of the places is a duty. -/
theorem mem_duties_of_place {m : Machine} {d : Duty} (h : Place m d) : d ∈ m.duties := by
  -- what a dispatcher has is a part of what they all have
  have hBench : ∀ {b : Bench}, b ∈ m.benches → d ∈ b.duties → d ∈ m.duties := by
    intro b hb hd
    have hSome := mem_sum_map_of_mem hb hd
    simp only [duties, Multiset.mem_add]
    tauto
  cases h with
  | main hr =>
    simp only [duties, Multiset.mem_add]
    exact Or.inl (Or.inl (Or.inl (Or.inl (mem_queueDuties.mpr ⟨_, hr, rfl⟩))))
  | queue hb hr =>
    refine hBench hb ?_
    simp only [Dispatcher.duties, Multiset.mem_add]
    exact Or.inl (Or.inl (mem_queueDuties.mpr ⟨_, hr, rfl⟩))
  | loop hb hLoop =>
    refine hBench hb ?_
    simp only [Dispatcher.duties, hLoop, DispatchLoop.duties, Multiset.mem_add]
    exact Or.inl (Or.inr (Multiset.mem_singleton_self _))
  | handed hb hw => exact mem_duties_of_worker hb hw (Multiset.mem_singleton_self _)
  | busy hb hw => exact mem_duties_of_worker hb hw (Multiset.mem_singleton_self _)
  | @errand e i ds he hTask hDeeds hSome =>
    refine mem_duties_of_errands he ?_
    rw [Errand.duties, hTask, hDeeds]
    exact Duty.mem_ofDeeds.mpr ⟨hSome, rfl⟩

/-- A number in a list of numbers that add up to zero is zero. -/
theorem eq_zero_of_sum {α : Type} {f : α → Nat} {l : List α} (h : (l.map f).sum = 0) {a : α}
    (ha : a ∈ l) : f a = 0 :=
  List.sum_eq_zero_iff_forall_eq_nat.mp h (f a) (List.mem_map_of_mem ha)

/-- A queue without runnables of a task holds none of it. -/
theorem ne_of_runnablesOf {i : Nat} {queue : List Runnable} (h : runnablesOf i queue = 0)
    {r : Runnable} (hr : r ∈ queue) : r.task ≠ i := fun hTask =>
  List.countP_eq_zero.mp h r hr (by simpa using hTask)

/-- **When nothing of a task is left**, its duties are executions that have let go. -/
theorem Idle.ended {m : Machine} {i : Nat} (h : m.Idle i) {d : Duty} (hd : d ∈ m.duties)
    (hTask : d.task = i) : ∃ e, d = .running e ∧ e.phase = .doing [] := by
  cases place_of_mem hd with
  | main hr => exact absurd hTask (ne_of_runnablesOf h.queued hr)
  | @queue b r hb hr =>
    have hNone := eq_zero_of_sum h.dispatched hb
    exact absurd hTask (ne_of_runnablesOf (by omega) hr)
  | @loop b r hb hLoop =>
    have hNone := eq_zero_of_sum h.dispatched hb
    simp only [hLoop, DispatchLoop.runnablesOf] at hNone
    exact absurd hTask fun hEq => by
      rw [Duty.task] at hEq
      simp [hEq] at hNone
  | @handed b r hb hw =>
    have hNone := eq_zero_of_sum (eq_zero_of_sum h.hands hb) hw
    exact absurd hTask fun hEq => by
      rw [Duty.task] at hEq
      simp [Worker.runnablesOf, hEq] at hNone
  -- an execution may be left, if the reference of its runnable was let go
  | @busy b e hb hw =>
    have hNone := eq_zero_of_sum (eq_zero_of_sum h.hands hb) hw
    rw [Duty.task] at hTask
    obtain ⟨r, phase⟩ := e
    refine ⟨_, rfl, ?_⟩
    cases phase with
    | doing ds =>
      cases ds with
      | nil => rfl
      | cons => simp_all [Worker.runnablesOf, Execution.isOver]
    | _ => simp_all [Worker.runnablesOf, Execution.isOver]
  | errand he hSame hDeeds hSome => exact absurd (hDeeds ▸ h.errands _ he (hSame.trans hTask)) hSome

/-! ## Every reachable state -/

/-- A step that does not throw runnables away: the router ends only when the main queue is empty. -/
def SparesQueue (m : Machine) (s : MachineStep) : Prop := s = .endRouter → m.floor.main = []

/-- The references of all tasks balance: every `add_ref` is met by one `release`. -/
structure Balanced (m : Machine) : Prop where
  /-- The pending actions of a task are its runnables, wherever they are, and what is reserved. -/
  counted  : ∀ i t, m.floor.tasks[i]? = some t → t.record.pending =
    m.queuedOf i + m.dispatchedOf i + m.handsOf i + m.reservedOf i
  /-- Only a task with pending actions is released. -/
  released : ∀ s i, m.performs s = some (i, .mark .release) →
    ∃ t, m.floor.tasks[i]? = some t ∧ 1 ≤ t.record.pending
  /-- No snapshot tells of a finish with pending actions. -/
  finished : ∀ x ∈ m.floor.snapshots, x.status = .finished → x.pending = 0
  /-- A task of which nothing is left has no pending actions and has ended. -/
  ended    : ∀ i t, m.floor.tasks[i]? = some t → m.Idle i →
    t.record.pending = 0 ∧ t.record.status.isTerminal = true

/-- An execution of a task is orderly in either stage of the task. -/
theorem orderly_of_stage {t : Task} {ds : Multiset Duty} (h : Stage t ds) {e : Execution}
    (he : .running e ∈ ds) : (Duty.running e).Orderly := by
  cases h with
  | working hOrderly _ _ _ => exact hOrderly _ he
  | @opening i deeds hDuties =>
    rw [hDuties] at he
    exact absurd (Duty.mem_ofDeeds.mp he).2 (by simp)

/-- A task that is released has pending actions. -/
theorem pending_of_release {t : Task} {ds : Multiset Duty} (h : Stage t ds) {d : Duty}
    {rest : List Deed} (hd : d ∈ ds) (hDeeds : d.deeds = some (.mark .release :: rest)) :
    1 ≤ t.pending := by
  cases h with
  | working hOrderly hPending _ _ =>
    -- the deeds hold a reference to their end, and the other duties hold no negative number
    obtain ⟨others, rfl⟩ := Multiset.exists_cons_of_mem hd
    obtain ⟨hClosing, hHeld⟩ := (hOrderly d hd).closing hDeeds
    have hRest := Duty.allHeld_nonneg fun d' hd' => hOrderly d' (Multiset.mem_cons_of_mem hd')
    have hSome := hClosing.1
    rw [Duty.allHeld_cons] at hPending
    omega
  | @opening i deeds hDuties hOpens _ =>
    rw [hDuties] at hd
    obtain ⟨-, rfl⟩ := Duty.mem_ofDeeds.mp hd
    obtain rfl := Option.some.inj hDeeds
    exact hOpens.pending_of_release

/-- Kept books balance. -/
theorem Accounted.balanced {m : Machine} (h : m.Accounted) : m.Balanced where
  counted i t ht := by
    rw [(h.stages i t ht).pending_eq]
    exact heldOf_duties fun e he => orderly_of_stage (h.stages i t ht) he
  released s i hRelease := by
    -- whoever releases has a duty whose next deed that is
    obtain ⟨d, hd, rest, rfl, hDeeds⟩ := mem_duties_of_performs hRelease
    have ht := List.getElem?_eq_getElem (h.sound.valid d hd)
    exact ⟨_, ht, pending_of_release (h.stages d.task _ ht)
      (Multiset.mem_filter.mpr ⟨hd, rfl⟩) hDeeds⟩
  finished := h.snapshots
  ended i t ht hIdle := by
    refine (h.stages i t ht).isTerminal_of_over fun d hd => ?_
    obtain ⟨hMem, hTask⟩ := Multiset.mem_filter.mp hd
    exact hIdle.ended hMem hTask

/-- A scheduler starts with its books in order. -/
theorem accounted_of_start {u : Setup} {now : Int64} {catalog : Catalog} {capacity : Nat}
    {m : Machine} (hStart : start u now catalog capacity = .ok m) : m.Accounted := by
  obtain ⟨-, hTasks, hSnapshots, -⟩ := duties_of_start hStart
  refine ⟨sound_of_start hStart, fun i t ht => ?_, fun x hx => ?_⟩
  · rw [hTasks] at ht
    exact absurd ht (by simp)
  · rw [hSnapshots] at hx
    exact absurd hx (by simp)

/-- **References balance in every state that a scheduler can reach**, whatever the order of its
steps, as long as the router does not throw away runnables: the `rc` of a task is the number of its
runnables and of what `add_ref` has reserved for them; `release` is never called without a
reference; it is never told of as finished with pending actions; and when nothing of it is left, it
has none and has ended. -/
theorem references_balanced {u : Setup} {now : Int64} {catalog : Catalog} {capacity : Nat}
    {m₀ m : Machine} {ss : List MachineStep} (hStart : start u now catalog capacity = .ok m₀)
    (hRun : Course u SparesQueue m₀ ss m) : m.Balanced :=
  (hRun.invariant (fun _ _ _ h hSpares hStep => h.step hSpares hStep)
    (accounted_of_start hStart)).balanced

/-! ## One run -/

/-- A scheduler without handlers. -/
def bareSetup : Setup where
  registry := {}
  site := ⟨Backend.empty, ⟨fun _ => .unstarted "", fun _ _ => .unsent ""⟩⟩
  taskId _ := "t"

/-- A job with one action. -/
def plainJob : Job where
  id := "j"
  maxConcurrency := 1
  actions := [{ id := "a" }]

/-- A run from the news of a job to the end of a task of it. The only action has no handler. -/
def plainSteps : List MachineStep :=
  [.publish (.job { updated := some plainJob }), .listen .jobs,
   .launch plainJob (.timer { jobId := "j" }), .call 0, .call 0, .call 0, .call 0, .route,
   .dispatch 0 (.offer 0), .dispatch 0 .take, .dispatch 0 .hand, .dispatch 0 (.pick 0),
   .work 0 0, .work 0 0, .work 0 0, .work 0 0, .work 0 0]

/-- The references balance at the end of that run, where the task has failed and has none. -/
theorem references_balanced_plainSteps :
    ∃ m₀ m, start bareSetup 0 {} 8 = .ok m₀ ∧
      m₀.run bareSetup (fun _ => keepsRouter) plainSteps = some m ∧ m.Balanced ∧
      m.floor.tasks.map (fun t => (t.record.status, t.record.pending)) = [(.error, 0)] := by
  obtain ⟨m₀, hStart, hEnd⟩ : ∃ m₀, start bareSetup 0 {} 8 = .ok m₀ ∧
      (m₀.run bareSetup (fun _ => keepsRouter) plainSteps).map (fun m => m.floor.tasks.map fun t =>
        (t.record.status, t.record.pending)) = some [(.error, 0)] := ⟨_, rfl, rfl⟩
  obtain ⟨m, hRun, hTasks⟩ := Option.map_eq_some_iff.mp hEnd
  have hSpares : ∀ m s, keepsRouter s = true → SparesQueue m s :=
    fun _ _ hKeeps hEnd => absurd hEnd (ne_endRouter hKeeps)
  exact ⟨m₀, m, hStart, hRun, references_balanced hStart (Course.of_run hSpares hRun), hTasks⟩

end Machine

end Taskyard
