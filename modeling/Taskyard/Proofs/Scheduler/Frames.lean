import Taskyard.Scheduler.Machine

/-!
# Scheduler — what a step touches

A step of the machine is made of few things that are done to the floor, and each of them touches few
parts of it. What a step can do is said here once, part by part, and whatever all steps keep is
proved from that.

Main results:

* `Floor.exists_mark`, `Floor.exists_perform`, `Floor.exists_telling`, `Machine.exists_runErrand` —
  what else stays on the floor.
* `Execution.floor_cases`, `Execution.exists_phase` — what a step of an execution does to the floor,
  and to the execution.
* `Machine.announce_cases`, `Machine.call_cases`, `Machine.stepRouter_cases`, `Machine.work_cases`,
  `Machine.write_cases`, `Machine.silence_cases`, `Machine.endRouter_cases` — what these steps do.
* `Machine.exists_of_start` — the machine at the start.
-/

namespace Taskyard

/-! ## Things done to the floor -/

namespace Floor

/-- A change of a task touches the tasks and what the writer is handed. -/
theorem exists_mark (f : Floor) (i : Nat) (s : TaskStep) :
    ∃ tasks writer, f.mark i s = { f with tasks, writer } := by
  unfold mark
  split
  · exact ⟨f.tasks, f.writer, rfl⟩
  · unfold deliver
    split <;> exact ⟨_, _, rfl⟩

/-- A deed changes the task, or it touches the main queue. -/
theorem exists_perform (f : Floor) (i : Nat) (d : Deed) :
    ∃ tasks writer main, (f.perform i d).1 = { f with tasks, writer, main } := by
  cases d with
  | mark s =>
    obtain ⟨tasks, writer, hMark⟩ := exists_mark f i s
    exact ⟨tasks, writer, f.main, hMark⟩
  | queue action input =>
    rw [perform]
    split <;> exact ⟨_, _, _, rfl⟩

/-- Announcements wait among the calls, and touch nothing else. -/
theorem exists_telling (f : Floor) (told : List Announcement) :
    ∃ calls, f.telling told = { f with calls } := by
  unfold telling
  split <;> exact ⟨_, rfl⟩

end Floor

/-- An errand performs deeds and starts tasks. -/
theorem Machine.exists_runErrand {u : Setup} {f f' : Floor} {e e' : Errand}
    (h : runErrand u f e = some (f', e')) :
    ∃ tasks writer main, f' = { f with tasks, writer, main } := by
  unfold runErrand at h
  split at h
  · next d rest _ =>
    obtain ⟨tasks, writer, main, hPerform⟩ := f.exists_perform e.task d
    obtain ⟨rfl, -⟩ := Prod.mk.inj (Option.some.inj h)
    exact ⟨tasks, writer, main, hPerform⟩
  · obtain ⟨rfl, -⟩ := Prod.mk.inj (Option.some.inj h)
    exact ⟨_, _, _, rfl⟩
  · exact absurd h (by simp)

/-! ## Executions -/

namespace Execution

variable {u : Setup} {f f' : Floor} {e : Execution} {next : Option Execution}

/-- The first step of an execution leaves the floor as it is, or says that the task runs. -/
theorem floor_of_begin {t : LiveTask} (hBegin : begin u f t e = (f', next)) :
    f' = f ∨ f' = f.mark e.runnable.task .setRunning := by
  simp only [begin] at hBegin
  split at hBegin
  · exact .inl (congrArg Prod.fst hBegin).symm
  · -- only a handler that is ready lets the task run
    split at hBegin
    · exact .inl (congrArg Prod.fst hBegin).symm
    · exact .inl (congrArg Prod.fst hBegin).symm
    · exact .inr (congrArg Prod.fst hBegin).symm

/-- **What a step of an execution does to the floor.** A script that prunes deletes tasks; any other
step leaves the floor as it is, or performs one deed of the task. -/
theorem floor_cases (hStep : e.step u f = some (f', next)) :
    (∃ d script, e.phase = .running (.prune d script) ∧
        f' = (proceed u f e (.prune d script)).1) ∨
      (∀ d script, e.phase ≠ .running (.prune d script)) ∧
        (f' = f ∨ ∃ x, f' = (f.perform e.runnable.task x).1) := by
  obtain ⟨r, phase⟩ := e
  -- only a script can prune, so any other phase is settled by what the step is
  cases phase with
  | fresh =>
    obtain ⟨t, -, hBegin⟩ := Option.map_eq_some_iff.mp hStep
    refine .inr ⟨nofun, (floor_of_begin hBegin).imp_right ?_⟩
    exact fun hMarked => ⟨.mark .setRunning, hMarked⟩
  | running script =>
    have hFloor : f' = (proceed u f ⟨r, .running script⟩ script).1 :=
      congrArg Prod.fst (Option.some.inj hStep).symm
    cases script with
    | prune d script => exact .inl ⟨d, script, rfl, hFloor⟩
    | report progress script => exact .inr ⟨nofun, .inr ⟨.mark (.setProgress progress), hFloor⟩⟩
    | finish | refuse | crash | wait => exact .inr ⟨nofun, .inl hFloor⟩
  | asleep due script =>
    simp only [step] at hStep
    split at hStep
    · exact .inr ⟨nofun, .inl (congrArg Prod.fst (Option.some.inj hStep).symm)⟩
    · exact absurd hStep (by simp)
  | crashed reason => exact .inr ⟨nofun, .inl (congrArg Prod.fst (Option.some.inj hStep).symm)⟩
  | doing deeds =>
    cases deeds with
    | nil => exact .inr ⟨nofun, .inl (congrArg Prod.fst (Option.some.inj hStep).symm)⟩
    | cons x rest =>
      exact .inr ⟨nofun, .inr ⟨x, congrArg Prod.fst (Option.some.inj hStep).symm⟩⟩

/-- A step of an execution ends it or brings it to another phase. -/
theorem exists_phase (hStep : e.step u f = some (f', next)) :
    next = none ∨ ∃ p, next = some { e with phase := p } := by
  obtain ⟨r, phase⟩ := e
  cases phase with
  | fresh =>
    obtain ⟨t, -, hBegin⟩ := Option.map_eq_some_iff.mp hStep
    simp only [begin] at hBegin
    split at hBegin
    · exact .inr ⟨_, (congrArg Prod.snd hBegin).symm⟩
    · split at hBegin <;> exact .inr ⟨_, (congrArg Prod.snd hBegin).symm⟩
  | running script =>
    have hProceed := Option.some.inj hStep
    cases script with
    | prune deletion script =>
      simp only [proceed] at hProceed
      split at hProceed <;> exact .inr ⟨_, (congrArg Prod.snd hProceed).symm⟩
    | _ => exact .inr ⟨_, (congrArg Prod.snd hProceed).symm⟩
  | asleep due script =>
    simp only [step] at hStep
    split at hStep
    · exact .inr ⟨_, (congrArg Prod.snd (Option.some.inj hStep)).symm⟩
    · exact absurd hStep (by simp)
  | crashed reason => exact .inr ⟨_, (congrArg Prod.snd (Option.some.inj hStep)).symm⟩
  -- only an execution without deeds left has nothing to go on with
  | doing deeds =>
    cases deeds with
    | nil => exact .inl (congrArg Prod.snd (Option.some.inj hStep)).symm
    | cons x rest => exact .inr ⟨_, (congrArg Prod.snd (Option.some.inj hStep)).symm⟩

end Execution

/-! ## Steps of the machine -/

namespace Machine

/-- Of what is owed by a call the first thing is told. -/
theorem announce_cases {m m' : Machine} {n : Nat} (hStep : m.announce n = some m') :
    ∃ a rest calls, m.floor.calls[n]? = some (a :: rest) ∧
      calls = (if rest.isEmpty then m.floor.calls.eraseIdx n else m.floor.calls.set n rest) ∧
      m' = (m.onFloor { m.floor with calls }).tell a := by
  unfold announce at hStep
  split at hStep
  · next a rest hCall => exact ⟨a, rest, _, hCall, rfl, (Option.some.inj hStep).symm⟩
  · exact absurd hStep (by simp)

/-- A caller takes a step of its errand, or is done with it. -/
theorem call_cases {u : Setup} {m m' : Machine} {n : Nat} (hStep : m.call u n = some m') :
    ∃ e, m.callers[n]? = some e ∧
      ((∃ f e', runErrand u m.floor e = some (f, e') ∧
          m' = { m.onFloor f with callers := m.callers.set n e' }) ∨
        runErrand u m.floor e = none ∧ m' = { m with callers := m.callers.eraseIdx n }) := by
  unfold call at hStep
  split at hStep
  · exact absurd hStep (by simp)
  · next e hCaller =>
    refine ⟨e, hCaller, ?_⟩
    split at hStep
    · next f e' hRun => exact .inl ⟨f, e', hRun, (Option.some.inj hStep).symm⟩
    · next hDone => exact .inr ⟨hDone, (Option.some.inj hStep).symm⟩

/-- The router hands on the next runnable, takes a step of its errand, or is done with it. -/
theorem stepRouter_cases {u : Setup} {m m' : Machine} (hStep : m.stepRouter u = some m') :
    (∃ r rest m₁ deeds, m.router = .waiting ∧ m.floor.main = r :: rest ∧
      (m.onFloor { m.floor with main := rest }).route u r = (m₁, deeds) ∧
      m' = if deeds.isEmpty then m₁ else { m₁ with router := .busy { task := r.task, deeds } }) ∨
    ∃ e, m.router = .busy e ∧
      ((∃ f e', runErrand u m.floor e = some (f, e') ∧
          m' = { m.onFloor f with router := .busy e' }) ∨
        runErrand u m.floor e = none ∧ m' = { m with router := .waiting }) := by
  unfold stepRouter at hStep
  -- it waits with a runnable in the queue, or it is busy; else it cannot go on
  split at hStep
  · next r rest hWaiting hMain =>
    exact .inl ⟨r, rest, _, _, hWaiting, hMain, rfl, (Option.some.inj hStep).symm⟩
  · next e hBusy =>
    refine .inr ⟨e, hBusy, ?_⟩
    split at hStep
    · next f e' hRun => exact .inl ⟨f, e', hRun, (Option.some.inj hStep).symm⟩
    · next hDone => exact .inr ⟨hDone, (Option.some.inj hStep).symm⟩
  · exact absurd hStep (by simp)

/-- A worker takes a step of its execution, and goes on with what is left of it. -/
theorem work_cases {u : Setup} {m m' : Machine} {n w : Nat} (hStep : m.work u n w = some m') :
    ∃ b e f next, m.benches[n]? = some b ∧ b.execution? w = some e ∧
      e.step u m.floor = some (f, next) ∧
      m' = { m.onFloor f with benches := m.benches.set n (b.carry w next) } := by
  unfold work at hStep
  split at hStep
  · exact absurd hStep (by simp)
  · next b hb =>
    split at hStep
    · exact absurd hStep (by simp)
    · next f next hWork =>
      obtain ⟨e, he, hMoved⟩ := Option.bind_eq_some_iff.mp hWork
      exact ⟨b, e, f, next, hb, he, hMoved, (Option.some.inj hStep).symm⟩

/-- The writer takes a step, and a snapshot that is put well goes into the catalog. -/
theorem write_cases {m m' : Machine} {s : WriterStep} (hStep : m.write s = some m') :
    ∃ w put, m.floor.writer.step s = some (w, put) ∧
      ((∃ t, put = some t ∧ s = .put true ∧ m' = m.onFloor
          (({ m.floor with writer := w, catalog := (m.floor.catalog.saveTask t).1 } : Floor).telling
            (m.floor.catalog.saveTask t).2)) ∨
        (put = none ∨ s ≠ .put true) ∧ m' = m.onFloor { m.floor with writer := w }) := by
  unfold write at hStep
  split at hStep
  · exact absurd hStep (by simp)
  · next w put hPut =>
    refine ⟨w, put, hPut, ?_⟩
    split at hStep
    -- a put that succeeds reaches the catalog, everything else stays in the pipeline
    · next t => exact .inl ⟨t, rfl, rfl, (Option.some.inj hStep).symm⟩
    · next hOther =>
      refine .inr ⟨?_, (Option.some.inj hStep).symm⟩
      cases put with
      | none => exact .inl rfl
      | some t => exact .inr fun hWell => hOther t rfl hWell

theorem silence_cases {m m' : Machine} {c : Channel} (hStep : m.silence c = some m') :
    (m.ears.get c).canEnd = true ∧ m' = (m.setEar c .deaf).unsubscribe c := by
  unfold silence at hStep
  split at hStep
  · next hCanEnd => exact ⟨hCanEnd, (Option.some.inj hStep).symm⟩
  · exact absurd hStep (by simp)

theorem endRouter_cases {m m' : Machine} (hStep : m.endRouter = some m') :
    m.router = .waiting ∧
      m' = { m.onFloor { m.floor with main := [], accepting := false } with router := .ended } := by
  unfold endRouter at hStep
  split at hStep
  · next hWaiting => exact ⟨hWaiting, (Option.some.inj hStep).symm⟩
  · exact absurd hStep (by simp)

/-! ## The start -/

/-- At the start the jobs of the catalog are loaded, and nobody has anything to do. -/
theorem exists_of_start {u : Setup} {now : Int64} {catalog : Catalog} {capacity : Nat}
    {m : Machine} (h : start u now catalog capacity = .ok m) :
    ∃ js, catalog.listJobs {} = .ok js ∧ m =
      { floor := { now, catalog, writer := .ofBuffer u.updateBuffer }
        jobs := js.foldl (fun d j => d.insert j.id j) Dict.empty
        tree := (Topic.create capacity).subscribe.1
        attributes := (Topic.create capacity).subscribe.1
        timers := (Topic.create capacity).subscribe.1
        changes := (Topic.create capacity).subscribe.1 } := by
  rw [start] at h
  cases hJobs : catalog.listJobs {} with
  | error fault =>
    rw [hJobs] at h
    cases h
  | ok js =>
    rw [hJobs] at h
    exact ⟨js, rfl, (Except.ok.inj h).symm⟩

end Machine

end Taskyard
