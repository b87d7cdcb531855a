import Taskyard.Proofs.Job.Snapshots
import Taskyard.Proofs.Scheduler.Attention
import Taskyard.Proofs.Scheduler.Finality
import Taskyard.Proofs.Scheduler.Genealogy

/-!
# Scheduler — one execution among the others

An execution takes its steps while everybody else takes theirs. Nobody but its worker touches it,
and nobody takes back what it has done to the record of its task. It never waits for anybody either:
its worker can bring it to its end alone, given the time that its handler wants to wait.

Main results:

* `Machine.execution?_of_step` — whoever executes is left alone.
* `Machine.onward_of_step` — no step takes anything back of a record.
* `Machine.exists_of_work`, `Machine.exists_work` — a worker takes the steps of its execution.
* `Machine.finishes` — every execution can be brought to its end.
-/

namespace Taskyard

namespace Machine

open Deed

/-! ## Who executes is left alone -/

section Hands

variable {u : Setup} {m m' : Machine} {n w : Nat} {e : Execution}

theorem execution?_eq_seenAt (m : Machine) (n w : Nat) :
    m.execution? n w = m.seenAt none (·.execution? w) n := by
  unfold execution? seenAt
  cases m.benches[n]? <;> rfl

/-- Nobody executes at a new dispatcher. -/
theorem execution?_start (w k : Nat) : (Dispatcher.start k : Bench).execution? w = none := by
  unfold Dispatcher.execution?
  split
  · next e hBusy =>
    have hMem := List.mem_replicate.mp (List.mem_of_getElem? hBusy)
    exact absurd hMem.2 (by simp)
  · rfl

/-- Giving work to a free worker leaves the busy ones. -/
theorem execution?_of_assign {b : Bench} {k : Nat} {x : Worker Runnable Execution}
    {x' : Worker Runnable Execution} (hWorker : b.crew[k]? = some x) (hFree : x.isBusy = false)
    (he : b.execution? w = some e) : (b.assign k x').execution? w = some e := by
  have hCrew := Dispatcher.crew_of_execution? he
  have hOther : k ≠ w := by
    rintro rfl
    obtain rfl := Option.some.inj (hCrew.symm.trans hWorker)
    exact absurd hFree (by simp [Worker.isBusy])
  rw [Dispatcher.execution?, Dispatcher.assign, List.getElem?_set_ne hOther, hCrew]

/-- A step of a dispatcher leaves those who execute. -/
theorem execution?_of_stepped {b b' : Bench} {s : DispatcherStep}
    (hStep : Dispatcher.Stepped ({ runnable := · }) b s b') (he : b.execution? w = some e) :
    b'.execution? w = some e := by
  cases hStep with
  | took | closed => exact he
  | handed _ _ hWorker | offered hWorker | retired hWorker | picked hWorker | left hWorker =>
    exact execution?_of_assign hWorker rfl he

/-- A worker goes on with what is left of its execution. -/
theorem execution?_carry {b : Bench} {v : Nat} (he : b.execution? v = some e)
    (next : Option Execution) (w : Nat) :
    (b.carry v next).execution? w = if v = w then next else b.execution? w := by
  have hLt : v < b.crew.length :=
    (List.getElem?_eq_some_iff.mp (Dispatcher.crew_of_execution? he)).1
  by_cases hSame : v = w
  · subst hSame
    rw [if_pos rfl]
    cases next <;>
      simp [Dispatcher.carry, Dispatcher.finish, Dispatcher.assign, Dispatcher.execution?, hLt]
  · rw [if_neg hSame]
    cases next <;>
      simp [Dispatcher.carry, Dispatcher.finish, Dispatcher.assign, Dispatcher.execution?,
        List.getElem?_set_ne hSame]

/-- A step of one dispatcher leaves the executions of the others. -/
theorem execution?_set {b : Bench} (hb : m.benches[n]? = some b) (b' : Bench) (k w : Nat)
    (hBenches : m'.benches = m.benches.set n b') :
    m'.execution? k w = if n = k then b'.execution? w else m.execution? k w := by
  rw [execution?_eq_seenAt, execution?_eq_seenAt, seenAt_set hb b' k hBenches]

/-- What a worker executes after a step of its execution is what is left of that. -/
theorem execution?_carried {b : Bench} (hb : m.benches[n]? = some b)
    (he : b.execution? w = some e) (next : Option Execution)
    (hBenches : m'.benches = m.benches.set n (b.carry w next)) : m'.execution? n w = next := by
  rw [execution?_set hb _ n w hBenches, if_pos rfl, execution?_carry he, if_pos rfl]

theorem execution?_of_bench {b : Bench} (hb : m.benches[n]? = some b) (w : Nat) :
    m.execution? n w = b.execution? w := by
  rw [execution?, hb, Option.bind_some]

/-- A runnable that is routed comes into a queue, which is not in the hands of a worker. -/
theorem execution?_route (hm : m.Staffed) (u : Setup) (r : Runnable) (n w : Nat) :
    (m.route u r).1.execution? n w = m.execution? n w := by
  rcases hm.route_cases u r with ⟨-, hAway⟩ | ⟨j, b, -, hb, hRouted⟩
  · rw [hAway]
  · have hFor : (m.benchFor u j).1.execution? n w = m.execution? n w := by
      rw [execution?_eq_seenAt, execution?_eq_seenAt, seenAt_benchFor (execution?_start w)]
    rw [hRouted, execution?_set hb { b with queue := b.queue ++ [r] } n w rfl]
    split
    · next hHere =>
      subst hHere
      rw [← hFor, execution?_of_bench hb]
      rfl
    · exact hFor

/-- A change of a job interrupts no execution: the old dispatcher keeps its workers. -/
theorem execution?_handleChange (u : Setup) (m : Machine) (c : JobChange) (n w : Nat) :
    (m.handleChange u c).execution? n w = m.execution? n w := by
  rw [execution?_eq_seenAt, execution?_eq_seenAt,
    seenAt_handleChange (fun _ => rfl) (execution?_start w)]

theorem execution?_stopDispatchers (m : Machine) (n w : Nat) :
    m.stopDispatchers.execution? n w = m.execution? n w := by
  rw [execution?_eq_seenAt, execution?_eq_seenAt, seenAt_stopDispatchers fun _ => rfl]

theorem execution?_listen {c : Channel} (hStep : m.listen u c = some m') (n w : Nat) :
    m'.execution? n w = m.execution? n w := by
  have hHeeds := heeds_of_listen hStep
  generalize m.happens (.listen c) = seen at hHeeds
  cases hHeeds with
  | change => exact execution?_handleChange u _ _ n w
  | tree | attributes | trigger | known | unknown | found | missing | load | errand | done => rfl

theorem execution?_stepRouter (hm : m.Staffed) (hStep : m.stepRouter u = some m') (n w : Nat) :
    m'.execution? n w = m.execution? n w := by
  rcases stepRouter_cases hStep with ⟨r, rest, m₁, deeds, -, -, hRoute, rfl⟩ |
    ⟨_, -, ⟨_, _, -, rfl⟩ | ⟨-, rfl⟩⟩
  · have hTaken : (m.onFloor { m.floor with main := rest }).Staffed := hm.of_eq rfl rfl
    have hRouted := execution?_route hTaken u r n w
    rw [hRoute] at hRouted
    -- with deeds for the runnable the router is busy, and that is all that differs
    split <;> exact hRouted
  · rfl
  · rfl

theorem execution?_submit (hm : m.Staffed) (j : Job) (a : Action) (input : Message) (n w : Nat) :
    (m.submit u j a input).execution? n w = m.execution? n w := by
  have hAdded : (m.onFloor ((m.floor.addTask u j (.aside [])).mark m.floor.tasks.length
      .retain)).Staffed := hm.of_eq rfl rfl
  have hRouted := execution?_route hAdded u { action := a, task := m.floor.tasks.length, input } n w
  unfold submit
  dsimp only
  split <;> exact hRouted

theorem execution?_stepBench (hm : m.Staffed) {k : Nat} {s : DispatcherStep}
    (hStep : m.step u (.dispatch k s) = some m') (he : m.execution? n w = some e) :
    m'.execution? n w = some e := by
  obtain ⟨b, b', hb, hStepped, rfl, -⟩ := hm.stepBench hStep
  rw [execution?_set hb b' n w rfl]
  split
  · next hHere =>
    subst hHere
    rw [execution?_of_bench hb] at he
    exact execution?_of_stepped hStepped he
  · exact he

theorem execution?_work {k v : Nat} (hStep : m.step u (.work k v) = some m')
    (hOther : MachineStep.work k v ≠ .work n w) (he : m.execution? n w = some e) :
    m'.execution? n w = some e := by
  obtain ⟨b, e', f, next, hb, he', -, rfl⟩ := work_cases hStep
  rw [execution?_set hb (b.carry v next) n w rfl]
  split
  · next hHere =>
    subst hHere
    have hWorker : v ≠ w := fun h => hOther (by rw [h])
    rw [execution?_of_bench hb] at he
    rw [execution?_carry he', if_neg hWorker]
    exact he
  · exact he

/-- **Whoever executes is left alone** by every step but his own. -/
theorem execution?_of_step {s : MachineStep} (hm : m.Staffed) (hStep : m.step u s = some m')
    (hOther : s ≠ .work n w) (he : m.execution? n w = some e) : m'.execution? n w = some e := by
  cases s with
  | time | store | launch | saveJob | removeJob | saveTask =>
    obtain rfl := Option.some.inj hStep
    exact he
  | publish post =>
    obtain rfl := Option.some.inj hStep
    cases post with
    | node onAttributes _ => cases onAttributes <;> exact he
    | trigger | job => exact he
  | announce k =>
    obtain ⟨a, _, _, -, -, rfl⟩ := announce_cases hStep
    cases a <;> exact he
  -- a runnable that is submitted is put into a queue, which leaves the workers
  | submit j a input =>
    obtain rfl := Option.some.inj hStep
    exact (execution?_submit hm j a input n w).trans he
  | call k =>
    obtain ⟨_, -, ⟨_, _, -, rfl⟩ | ⟨-, rfl⟩⟩ := call_cases hStep <;> exact he
  | listen c => exact (execution?_listen hStep n w).trans he
  | route => exact (execution?_stepRouter hm hStep n w).trans he
  -- here another worker may begin, but not one that executes
  | dispatch => exact execution?_stepBench hm hStep he
  | work => exact execution?_work hStep hOther he
  | write s =>
    obtain ⟨_, _, -, ⟨_, -, -, rfl⟩ | ⟨-, rfl⟩⟩ := write_cases hStep <;> exact he
  | silence c =>
    obtain ⟨-, rfl⟩ := silence_cases hStep
    cases c <;> exact he
  | endRouter =>
    obtain ⟨-, rfl⟩ := endRouter_cases hStep
    exact he
  | stopDispatchers =>
    obtain rfl := Option.some.inj hStep
    exact (execution?_stopDispatchers m n w).trans he

end Hands

/-! ## Every step -/

section Steps

variable {u : Setup} {m m' : Machine} {n w : Nat} {r : Runnable}

/-- A turn takes nothing back of the record of its task. -/
theorem Turn.onward {t : LiveTask} {d : Duty} {begun : Option Runnable} {record : Task}
    {new : Multiset Duty} (h : Turn u m t d begun record new) : t.record.Onward record := by
  cases h with
  | pick | away | ended | queue | refuse => exact .refl _
  | @advance e now s p hNext =>
    cases s with
    | none => exact .refl _
    | some x => exact .apply x t.record
  | @mark _ now x rest hDeeds => exact .apply x t.record

/-- **No step takes anything back** of the record of a task. -/
theorem onward_of_step {s : MachineStep} (hSound : m.Sound) (hStep : m.step u s = some m') {i : Nat}
    {t : LiveTask} (ht : m.floor.tasks[i]? = some t) :
    ∃ t', m'.floor.tasks[i]? = some t' ∧ t.record.Onward t'.record := by
  obtain ⟨t', ht', -⟩ := exists_task_of_step hSound hStep ht
  refine ⟨t', ht', ?_⟩
  rcases step_cases hSound hStep with ⟨hMove, -⟩ | ⟨-, hEnds⟩
  · cases hMove.atTask hSound ht' with
    | idle ht₀ _ hRecord _ _ =>
      obtain rfl := Option.some.inj (ht.symm.trans ht₀)
      rw [hRecord]
      exact .refl _
    | turn ht₀ _ _ _ hTurn _ =>
      obtain rfl := Option.some.inj (ht.symm.trans ht₀)
      exact hTurn.onward
    -- the number of the task is taken
    | birth hNew _ =>
      have hLt : i < m.floor.tasks.length := (List.getElem?_eq_some_iff.mp ht).1
      omega
  · rw [hEnds.floor] at ht'
    obtain rfl := Option.some.inj (ht.symm.trans ht')
    exact .refl _

/-- A step of a worker is a step of its execution. -/
theorem exists_of_work (hSound : m.Sound) (hStep : m.step u (.work n w) = some m') :
    ∃ e t, m.execution? n w = some e ∧ m.floor.tasks[e.runnable.task]? = some t ∧
      e.step u m.floor = some (m'.floor, m'.execution? n w) := by
  obtain ⟨b, e, f, next, hb, he, hMoved, rfl⟩ := work_cases hStep
  have hHere : m.execution? n w = some e := (execution?_of_bench hb w).trans he
  obtain ⟨t, ht⟩ := hSound.exists_task_of_execution? hHere
  refine ⟨e, t, hHere, ht, ?_⟩
  rw [execution?_carried hb he next rfl]
  exact hMoved

/-- A step of an execution is one that its worker can take. -/
theorem exists_work {e : Execution} {f : Floor} {next : Option Execution}
    (he : m.execution? n w = some e) (hMoved : e.step u m.floor = some (f, next)) :
    ∃ m', m.step u (.work n w) = some m' ∧ m'.floor = f ∧ m'.execution? n w = next := by
  obtain ⟨b, hb, hBusy⟩ := Option.bind_eq_some_iff.mp he
  refine ⟨{ m.onFloor f with benches := m.benches.set n (b.carry w next) }, ?_, rfl,
    execution?_carried hb hBusy next rfl⟩
  simp only [step, work, hb, hBusy, Option.bind_some, hMoved]

/-- Whoever begins with a runnable executes it. -/
theorem execution?_of_begins (hm : m.Staffed)
    (hBegins : m.begins (.dispatch n (.pick w)) = some r)
    (hStep : m.step u (.dispatch n (.pick w)) = some m') :
    m'.execution? n w = some { runnable := r } := by
  obtain ⟨b, b', hb, hStepped, rfl, -⟩ := hm.stepBench hStep
  have hHere : b.begins (.pick w) = some r := by
    simpa only [begins, hb, Option.bind_some] using hBegins
  rw [execution?_set hb b' n w rfl, if_pos rfl]
  cases hStepped with
  | @picked _ r' hWorker =>
    have hSame : r' = r := by
      simpa only [Dispatcher.begins, hWorker, Option.some.injEq] using hHere
    have hLt : w < b.crew.length := (List.getElem?_eq_some_iff.mp hWorker).1
    subst hSame
    simp [Dispatcher.execution?, Dispatcher.assign, hLt]

end Steps

/-! ## Every execution can be brought to its end -/

/-- A worker goes on with what it executes, or time passes for it. -/
def WorksAlone (n w : Nat) (m : Machine) (s : MachineStep) : Prop :=
  (m.execution? n w).isSome = true ∧
    (s = .work n w ∨ ∃ clock ≥ m.floor.clock, s = .time m.floor.now clock)

/-- A worker can bring what it executes to its end alone. -/
def Finishes (u : Setup) (n w : Nat) (m : Machine) : Prop :=
  ∃ ss m', Course u (WorksAlone n w) m ss m' ∧ m'.execution? n w = none

section Ends

variable {u : Setup} {m : Machine} {n w : Nat} {r : Runnable}

/-- An execution finishes if what its next step makes of it does. -/
theorem finishes_of_work {e e' : Execution} {f : Floor} (he : m.execution? n w = some e)
    (hMoved : e.step u m.floor = some (f, some e'))
    (h : ∀ m, m.execution? n w = some e' → Finishes u n w m) : Finishes u n w m := by
  obtain ⟨m₁, hStep, -, he₁⟩ := exists_work he hMoved
  obtain ⟨ss, m', hRun, hOver⟩ := h m₁ he₁
  exact ⟨_, m', .step ⟨by rw [he]; rfl, .inl rfl⟩ hStep hRun, hOver⟩

/-- One mark less to make. -/
theorem finishes_of_mark {x : TaskStep} {rest : List Deed}
    (h : ∀ m, m.execution? n w = some ⟨r, .doing rest⟩ → Finishes u n w m) (m : Machine)
    (he : m.execution? n w = some ⟨r, .doing (.mark x :: rest)⟩) : Finishes u n w m :=
  finishes_of_work he rfl h

/-- Deeds come to an end, by induction on them. -/
theorem finishes_doing (ds : List Deed) :
    ∀ m, m.execution? n w = some ⟨r, .doing ds⟩ → Finishes u n w m := by
  induction ds with
  | nil =>
    intro m he
    obtain ⟨m', hStep, -, hOver⟩ := exists_work (u := u) he rfl
    exact ⟨_, m', .step ⟨by rw [he]; rfl, .inl rfl⟩ hStep (.rest m'), hOver⟩
  | cons x rest ih =>
    intro m he
    cases x with
    | mark x => exact finishes_of_mark ih m he
    | queue action input =>
      cases hOpen : m.floor.accepting with
      | true =>
        have hMoved : Execution.step u m.floor ⟨r, .doing (.queue action input :: rest)⟩ =
            some (m.floor.enqueue { action, task := r.task, input }, some ⟨r, .doing rest⟩) := by
          simp only [Execution.step, Floor.perform, hOpen, if_true]
          rfl
        exact finishes_of_work he hMoved ih
      -- two deeds stand in for a runnable that is refused
      | false =>
        have hMoved : Execution.step u m.floor ⟨r, .doing (.queue action input :: rest)⟩ =
            some (m.floor, some ⟨r, .doing (refused ++ rest)⟩) := by
          simp only [Execution.step, Floor.perform, hOpen, Bool.false_eq_true, if_false]
          rfl
        exact finishes_of_work he hMoved (finishes_of_mark (finishes_of_mark ih))

/-- A sleep ends, once its time has come. -/
theorem finishes_asleep {due : Nat} {next : Script}
    (h : ∀ m, m.execution? n w = some ⟨r, .running next⟩ → Finishes u n w m)
    (he : m.execution? n w = some ⟨r, .asleep due next⟩) : Finishes u n w m := by
  -- the clock goes on until the execution wakes
  let m₁ := m.onFloor { m.floor with clock := max m.floor.clock due }
  have hWoken : Execution.step u m₁.floor ⟨r, .asleep due next⟩ =
      some (m₁.floor, some ⟨r, .running next⟩) := if_pos (le_max_right _ _)
  obtain ⟨ss, m', hRun, hOver⟩ := finishes_of_work (m := m₁) he hWoken h
  exact ⟨_, m', .step ⟨by rw [he]; rfl, .inr ⟨_, le_max_left _ _, rfl⟩⟩ rfl hRun, hOver⟩

/-- Scripts come to an end, by induction on them. -/
theorem finishes_running (script : Script) :
    ∀ m, m.execution? n w = some ⟨r, .running script⟩ → Finishes u n w m := by
  induction script with
  | finish result => exact fun m he => finishes_of_work he rfl (finishes_doing _)
  | refuse fault => exact fun m he => finishes_of_work he rfl (finishes_doing _)
  | crash cause => exact fun m he => finishes_of_work he rfl (finishes_doing _)
  | report progress next ih => exact fun m he => finishes_of_work he rfl ih
  | wait millis next ih =>
    intro m he
    -- a wait of no time is over at once, and another one once the clock has come so far
    by_cases hZero : millis = 0
    · subst hZero
      exact finishes_of_work he rfl ih
    · have hMoved : Execution.step u m.floor ⟨r, .running (.wait millis next)⟩ =
          some (m.floor, some ⟨r, .asleep (m.floor.clock + millis) next⟩) := by
        simp only [Execution.step, Execution.proceed, if_neg hZero]
        rfl
      exact finishes_of_work he hMoved fun m he => finishes_asleep ih he
  | prune deletion next ih =>
    intro m he
    -- the script goes on with the answer, whatever it is
    cases hRemove : m.floor.catalog.removeTasks deletion with
    | ok removed =>
      obtain ⟨catalog, ids, told⟩ := removed
      have hMoved : Execution.step u m.floor ⟨r, .running (.prune deletion next)⟩ =
          some (({ m.floor with catalog } : Floor).telling told,
            some ⟨r, .running (next (.ok ids))⟩) := by
        simp only [Execution.step, Execution.proceed, hRemove]
        rfl
      exact finishes_of_work he hMoved (ih (.ok ids))
    | error fault =>
      have hMoved : Execution.step u m.floor ⟨r, .running (.prune deletion next)⟩ =
          some (m.floor, some ⟨r, .running (next (.error fault))⟩) := by
        simp only [Execution.step, Execution.proceed, hRemove]
        rfl
      exact finishes_of_work he hMoved (ih (.error fault))

/-- A crash is followed by deeds. -/
theorem finishes_crashed {cause : String} (he : m.execution? n w = some ⟨r, .crashed cause⟩) :
    Finishes u n w m := finishes_of_work he rfl (finishes_doing _)

/-- A fresh execution begins its script, or ends at once. -/
theorem finishes_fresh {t : LiveTask} (ht : m.floor.tasks[r.task]? = some t)
    (he : m.execution? n w = some ⟨r, .fresh⟩) : Finishes u n w m := by
  have hMoved : Execution.step u m.floor ⟨r, .fresh⟩ =
      some (Execution.begin u m.floor t ⟨r, .fresh⟩) := by
    simp only [Execution.step, ht, Option.map_some]
  simp only [Execution.begin] at hMoved
  split at hMoved
  · exact finishes_of_work he hMoved (finishes_doing _)
  · split at hMoved
    · exact finishes_of_work he hMoved (finishes_doing _)
    · exact finishes_of_work he hMoved fun m he => finishes_crashed he
    · exact finishes_of_work he hMoved (finishes_running _)

/-- **Every execution can be brought to its end.** -/
theorem finishes (hSound : m.Sound) (hExecutes : (m.execution? n w).isSome = true) :
    Finishes u n w m := by
  obtain ⟨⟨r, p⟩, he⟩ := Option.isSome_iff_exists.mp hExecutes
  cases p with
  | fresh =>
    obtain ⟨t, ht⟩ := hSound.exists_task_of_execution? he
    exact finishes_fresh ht he
  | running script => exact finishes_running script m he
  | asleep due next => exact finishes_asleep (finishes_running next) he
  | crashed cause => exact finishes_crashed he
  | doing ds => exact finishes_doing ds m he

end Ends

end Machine

end Taskyard
