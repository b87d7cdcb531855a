import Taskyard.Proofs.Catalog.Readable
import Taskyard.Proofs.Scheduler.Changes
import Taskyard.Proofs.Scheduler.Course
import Taskyard.Proofs.Scheduler.Steps

/-!
# Scheduler — what the machine writes

Few steps touch the catalog: those of callers who save or remove something, those of the writer, and
those of executions that prune. Each of them makes one change, so the catalog at the end of a run is
the one that it began with after the changes of the run.

Main definitions and results:

* `Machine.writes` — the change that a step makes.
* `Machine.catalog_of_step` — it is the only one.
* `Machine.Course.catalog_eq` — the catalog at the end of a run.
-/

namespace Taskyard

variable {u : Setup}

/-- The catalog after a change, if there is one. -/
def Catalog.afterChange (c : Catalog) (x : Option Catalog.Change) : Catalog :=
  x.elim c fun x => x.apply c

@[simp]
theorem Catalog.afterChange_none (c : Catalog) : c.afterChange none = c := rfl

/-! ## Executions -/

/-- The change that the next step of an execution makes. -/
def Execution.writes (e : Execution) : Option Catalog.Change :=
  match e.phase with
  | .running (.prune d _) => some (.deleteTasks d)
  | _ => none

namespace Floor

theorem catalog_telling (f : Floor) (told : List Announcement) :
    (f.telling told).catalog = f.catalog := by
  obtain ⟨calls, hTelling⟩ := f.exists_telling told
  rw [hTelling]

theorem catalog_mark (f : Floor) (i : Nat) (s : TaskStep) : (f.mark i s).catalog = f.catalog := by
  obtain ⟨tasks, writer, hMark⟩ := f.exists_mark i s
  rw [hMark]

/-- No deed writes to the catalog. -/
theorem catalog_perform (f : Floor) (i : Nat) (d : Deed) :
    (f.perform i d).1.catalog = f.catalog := by
  obtain ⟨tasks, writer, main, hPerform⟩ := f.exists_perform i d
  rw [hPerform]

end Floor

namespace Execution

variable {f f' : Floor} {e : Execution} {next : Option Execution}

/-- A deletion that fails changes nothing, and neither does its change. -/
theorem catalog_prune (f : Floor) (e : Execution) (d : Deletion)
    (script : Except Fault (List String) → Script) :
    (e.proceed u f (.prune d script)).1.catalog =
      Catalog.Change.apply f.catalog (.deleteTasks d) := by
  simp only [proceed, Catalog.removeTasks, Catalog.Change.apply]
  cases f.catalog.deleteTasks d with
  | ok removed => exact Floor.catalog_telling _ _
  | error fault => rfl

/-- An execution writes only when it prunes. -/
theorem writes_eq_none (h : ∀ d script, e.phase ≠ .running (.prune d script)) :
    e.writes = none := by
  unfold writes
  split
  · next d script hPrune => exact absurd hPrune (h d script)
  · rfl

/-- A deletion is the only step of an execution that changes the catalog. -/
theorem catalog_step (h : e.step u f = some (f', next)) :
    f'.catalog = f.catalog.afterChange e.writes := by
  rcases floor_cases h with ⟨d, script, hPrune, rfl⟩ | ⟨hOther, hFloor⟩
  · have hWrites : e.writes = some (.deleteTasks d) := by rw [writes, hPrune]
    rw [hWrites]
    exact catalog_prune f e d script
  · rw [writes_eq_none hOther]
    rcases hFloor with rfl | ⟨x, rfl⟩
    · rfl
    · exact Floor.catalog_perform f _ x

end Execution

namespace Machine

variable {m m' : Machine}

/-! ## Steps -/

/-- The change of the catalog that a step makes, if it makes one. -/
def writes (m : Machine) : MachineStep → Option Catalog.Change
  | .store j => some (.putJob j)
  | .saveJob j => some (.putJob j.withoutTasks)
  | .removeJob id => some (.deleteJob id)
  | .saveTask t => some (.putTask t)
  | .work n w => ((m.benches[n]?).bind (·.execution? w)).bind Execution.writes
  | .write (.put true) => ((m.floor.writer.step (.put true)).bind (·.2)).map .putTask
  | _ => none

theorem catalog_of_runErrand {f f' : Floor} {e e' : Errand}
    (h : runErrand u f e = some (f', e')) : f'.catalog = f.catalog := by
  obtain ⟨tasks, writer, main, rfl⟩ := exists_runErrand h
  rfl

theorem floor_route (u : Setup) (m : Machine) (r : Runnable) :
    (m.route u r).1.floor = m.floor := by
  obtain ⟨service, benches, hRoute⟩ := exists_route u m r
  rw [hRoute]

/-- A listener reads the catalog and leaves it. -/
theorem catalog_listen {c : Channel} (h : m.listen u c = some m') :
    m'.floor.catalog = m.floor.catalog := by
  rcases listen_cases h with ⟨e, f, e', -, hErrand, rfl⟩ | ⟨-, hFloor, -⟩
  · exact catalog_of_runErrand hErrand
  · rw [hFloor]

/-- The router leaves it. -/
theorem catalog_stepRouter (h : m.stepRouter u = some m') :
    m'.floor.catalog = m.floor.catalog := by
  rcases stepRouter_cases h with ⟨r, rest, m₁, deeds, -, -, hRoute, rfl⟩ |
    ⟨e, -, ⟨f, e', hErrand, rfl⟩ | ⟨-, rfl⟩⟩
  -- routing changes nothing that executions share
  · have hKept : m₁.floor.catalog = m.floor.catalog := by
      have hFloor := floor_route u (m.onFloor { m.floor with main := rest }) r
      rw [hRoute] at hFloor
      rw [show m₁.floor = _ from hFloor]
      rfl
    split <;> exact hKept
  · exact catalog_of_runErrand hErrand
  · rfl

theorem catalog_change (c : Catalog × List Announcement) :
    (m.change c).floor.catalog = c.1 := Floor.catalog_telling _ _

theorem catalog_submit (j : Job) (a : Action) (input : Message) :
    (m.submit u j a input).floor.catalog = m.floor.catalog := by
  have hRoute : ((m.onFloor ((m.floor.addTask u j (.aside [])).mark m.floor.tasks.length
      .retain)).route u { action := a, task := m.floor.tasks.length, input }).1.floor.catalog =
        m.floor.catalog := by
    rw [floor_route]
    exact Floor.catalog_mark _ _ _
  rw [submit]
  dsimp only
  split <;> exact hRoute

theorem catalog_call {n : Nat} (h : m.call u n = some m') :
    m'.floor.catalog = m.floor.catalog := by
  obtain ⟨e, -, ⟨f, e', hErrand, rfl⟩ | ⟨-, rfl⟩⟩ := call_cases h
  · exact catalog_of_runErrand hErrand
  · rfl

/-- A worker leaves the catalog as its pruning does, if it prunes. -/
theorem catalog_work {n w : Nat} (h : m.work u n w = some m') :
    m'.floor.catalog = m.floor.catalog.afterChange (m.writes (.work n w)) := by
  obtain ⟨b, e, f, next, hb, hBusy, hStep, rfl⟩ := work_cases h
  have hWrites : m.writes (.work n w) = e.writes := by
    show ((m.benches[n]?).bind (·.execution? w)).bind Execution.writes = _
    rw [hb, Option.bind_some, hBusy, Option.bind_some]
  rw [hWrites]
  exact Execution.catalog_step hStep

/-- The writer leaves the catalog as its put does, if it puts. -/
theorem catalog_write {s : WriterStep} (h : m.write s = some m') :
    m'.floor.catalog = m.floor.catalog.afterChange (m.writes (.write s)) := by
  -- a snapshot that is put well is the only one that reaches the catalog
  obtain ⟨writer, put, hPut, ⟨t, rfl, rfl, rfl⟩ | ⟨hOther, rfl⟩⟩ := write_cases h
  · have hWrites : m.writes (.write (.put true)) = some (.putTask t) := by
      show ((m.floor.writer.step (.put true)).bind (·.2)).map _ = _
      rw [hPut]
      rfl
    rw [hWrites]
    exact Floor.catalog_telling _ _
  · have hWrites : m.writes (.write s) = none := by
      cases s with
      | put done =>
        cases done with
        | true =>
          obtain rfl : put = none := hOther.resolve_right fun hNot => hNot rfl
          show ((m.floor.writer.step (.put true)).bind (·.2)).map _ = _
          rw [hPut]
          rfl
        | false => rfl
      | take | forward | drain | answer => rfl
    rw [hWrites]
    rfl

theorem catalog_tell (a : Announcement) : (m.tell a).floor = m.floor := by
  cases a <;> rfl

/-- **A step changes the catalog by what it writes**, and not at all if it writes nothing. -/
theorem catalog_of_step {s : MachineStep} (h : m.step u s = some m') :
    m'.floor.catalog = m.floor.catalog.afterChange (m.writes s) := by
  -- most steps write nothing, and leave the catalog as it is
  cases s with
  | time | store | launch =>
    cases h
    rfl
  | publish post =>
    cases h
    cases post with
    | node onAttributes c => cases onAttributes <;> rfl
    | trigger | job => rfl
  | saveJob | removeJob | saveTask =>
    cases h
    exact catalog_change _
  | announce n =>
    obtain ⟨a, _, _, -, -, rfl⟩ := announce_cases h
    rw [catalog_tell]
    rfl
  | submit j a input =>
    cases h
    exact catalog_submit j a input
  | call n => exact catalog_call h
  | listen c => exact catalog_listen h
  | route => exact catalog_stepRouter h
  | dispatch n s =>
    simp only [step, stepBench] at h
    split at h <;> cases h
    rfl
  | work n w => exact catalog_work h
  | write s => exact catalog_write h
  | silence c =>
    obtain ⟨-, rfl⟩ := silence_cases h
    cases c <;> rfl
  | endRouter =>
    obtain ⟨-, rfl⟩ := endRouter_cases h
    rfl
  | stopDispatchers =>
    cases h
    rw [(stopDispatchers_keeps m).2]
    rfl

/-! ## Runs -/

/-- The start reads the catalog and leaves it. -/
theorem catalog_of_start {now : Int64} {catalog : Catalog} {capacity : Nat}
    (h : start u now catalog capacity = .ok m) : m.floor.catalog = catalog := by
  obtain ⟨_, -, rfl⟩ := exists_of_start h
  rfl

/-- The catalog at the end of a run is that of its beginning after what was written in the run. -/
theorem Course.catalog_eq {allowed : Machine → MachineStep → Prop} {ss : List MachineStep}
    (h : Course u allowed m ss m') {changes : List Catalog.Change}
    (hm : m.floor.catalog = Catalog.after changes) :
    m'.floor.catalog =
      Catalog.after (changes ++ m.trace u (fun m s => (m.writes s).toList) ss) := by
  refine h.trace_invariant (P := fun past m => m.floor.catalog = Catalog.after past)
    (fun past m m' s hPast _ hStep => ?_) hm
  rw [catalog_of_step hStep, hPast]
  cases m.writes s with
  | none => simp
  | some x =>
    simp only [Option.toList_some, Catalog.after, List.foldl_append]
    rfl

/-- Every step keeps the catalog faithful. -/
theorem faithful_of_step {s : MachineStep} (h : m.floor.catalog.Faithful)
    (hStep : m.step u s = some m') : m'.floor.catalog.Faithful := by
  rw [catalog_of_step hStep]
  cases m.writes s with
  | none => exact h
  | some x => exact h.apply x

/-- Every run keeps the catalog faithful. -/
theorem Course.faithful {allowed : Machine → MachineStep → Prop} {ss : List MachineStep}
    (h : Course u allowed m ss m') (hm : m.floor.catalog.Faithful) : m'.floor.catalog.Faithful :=
  h.invariant (P := fun m => m.floor.catalog.Faithful)
    (fun _ _ _ hFaithful _ hStep => faithful_of_step hFaithful hStep) hm

end Machine

end Taskyard
