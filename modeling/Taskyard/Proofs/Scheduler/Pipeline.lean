import Taskyard.Proofs.Catalog.Readable
import Taskyard.Scheduler.Writer

/-!
# Scheduler — the writer loses nothing

The three loops of the writer end one after another: the one that forwards when the last handle is
gone, the one that puts when the first has ended, and the one that takes the answers away when the
second has. A loop would also end, with something in its hands, when the next one had ended before
it, but that never happens. So the snapshots are put in the order in which they are sent, however
the loops take turns and whether puts fail or not, and when nothing can go on they have all been
put.

Main definitions and results:

* `Writer.Stepped`, `Writer.backlog_of_step` — what a step of a loop can do, and that it keeps the
  order.
* `Pipeline`, `Pipeline.follow` — the writer with its handles, its loops and the catalog, and what
  can happen to it.
* `Pipeline.Observed` — a pipeline and its log after any events.
* `Pipeline.Observed.written` — the order, and what is put and stored.
-/

namespace Taskyard

namespace Writer

variable {w w' : Writer} {s : WriterStep} {put : Option Task}

/-- What a step of a loop does. -/
inductive Stepped (w : Writer) : WriterStep → Writer → Option Task → Prop
  | took {t : Task} {rest : List Task} (hHand : w.forwarding = none)
      (hUpdates : w.updates = t :: rest) :
      Stepped w .take { w with updates := rest, forwarding := some t } none
  | passed {t : Task} (hHand : w.forwarding = some t) :
      Stepped w .forward { w with forwarding := none, stream := w.stream ++ [t] } none
  | put {t : Task} {rest : List Task} (success : Bool) (hHand : w.answering = none)
      (hStream : w.stream = t :: rest) :
      Stepped w (.put success) { w with stream := rest, answering := some success } (some t)
  | answered {a : Bool} (hHand : w.answering = some a) :
      Stepped w .answer { w with answering := none, answers := w.answers ++ [a] } none
  | drained {a : Bool} {rest : List Bool} (hAnswers : w.answers = a :: rest) :
      Stepped w .drain { w with answers := rest } none

/-- Inversion of the writer's step. -/
theorem stepped_of_step (h : w.step s = some (w', put)) : Stepped w s w' put := by
  -- each step asks what its loop holds, and waits unless it can go on
  cases s with
  | take =>
    simp only [step] at h
    split at h
    · next hHand hUpdates =>
      cases h
      exact .took hHand hUpdates
    · cases h
  | forward =>
    simp only [step] at h
    split at h
    · next hHand =>
      split at h
      · cases h
        exact .passed hHand
      · cases h
    · cases h
  | put success =>
    simp only [step] at h
    split at h
    · next hHand hStream =>
      cases h
      exact .put success hHand hStream
    · cases h
  | answer =>
    simp only [step] at h
    split at h
    · next hHand =>
      split at h
      · cases h
        exact .answered hHand
      · cases h
    · cases h
  | drain =>
    simp only [step] at h
    split at h
    · next hAnswers =>
      cases h
      exact .drained hAnswers
    · cases h

/-- A snapshot goes from one stage of the pipeline to the next, behind those before it, and the
first of them is put. -/
theorem backlog_of_step (h : w.step s = some (w', put)) : w.backlog = put.toList ++ w'.backlog := by
  cases stepped_of_step h with
  | took hHand hUpdates => simp [backlog, hHand, hUpdates]
  | passed hHand => simp [backlog, hHand]
  | put success hHand hStream => simp [backlog, hStream]
  | answered => rfl
  | drained => rfl

/-- A bound on the steps that the loops can still take for the snapshots in the pipeline. -/
def stepsAhead (w : Writer) : Nat :=
  5 * w.updates.length + 4 * w.forwarding.toList.length + 3 * w.stream.length +
    2 * w.answering.toList.length + w.answers.length

/-- Each step of the writer is one step less to its end. -/
theorem stepsAhead_of_step (h : w.step s = some (w', put)) : w'.stepsAhead + 1 = w.stepsAhead := by
  -- a snapshot has five steps ahead of it, and what a loop holds counts one less
  cases stepped_of_step h with
  | took hHand hUpdates =>
    simp only [stepsAhead, hHand, hUpdates, Option.toList_some, Option.toList_none,
      List.length_cons, List.length_nil]
    omega
  | passed hHand =>
    simp only [stepsAhead, hHand, Option.toList_some, Option.toList_none, List.length_append,
      List.length_cons, List.length_nil]
    omega
  | put success hHand hStream =>
    simp only [stepsAhead, hHand, hStream, Option.toList_some, Option.toList_none, List.length_cons,
      List.length_nil]
    omega
  | answered hHand =>
    simp only [stepsAhead, hHand, Option.toList_some, Option.toList_none, List.length_append,
      List.length_cons, List.length_nil]
    omega
  | drained hAnswers =>
    simp only [stepsAhead, hAnswers, List.length_cons]
    omega

end Writer

/-! ## What happens to a pipeline -/

/-- A loop of the writer: the one of `spawn` that forwards, that of `put_task_stream`, and the one
of `spawn` that drains the answers. -/
inductive WriterLoop where
  | forwarding
  | putting
  | draining
  deriving DecidableEq, Repr

/-- The loop that takes a step. -/
def WriterStep.loop : WriterStep → WriterLoop
  | .take | .forward => .forwarding
  | .put _ | .answer => .putting
  | .drain => .draining

/-- The loop that a step passes something on to. -/
def WriterStep.consumer? : WriterStep → Option WriterLoop
  | .forward => some .putting
  | .answer => some .draining
  | _ => none

/-- Whether a step puts a snapshot with success. -/
def WriterStep.succeeds : WriterStep → Bool
  | .put success => success
  | _ => false

/-- The writer with its handles, its loops and the catalog. -/
structure Pipeline where
  /-- What is on its way. -/
  writer : Writer
  /-- The catalog that the snapshots are put into. -/
  catalog : Catalog
  /-- The number of handles that can still send. -/
  handles : Nat
  /-- Whether the loop that forwards has not ended. -/
  forwards : Bool := true
  /-- Whether the loop that puts has not ended. -/
  puts : Bool := true
  /-- Whether the loop that takes the answers away has not ended. -/
  drains : Bool := true

/-- Something that happens to a pipeline. -/
inductive PipelineEvent where
  /-- A handle is made from another one. -/
  | attach
  /-- A handle is gone. -/
  | detach
  /-- A handle sends a snapshot. -/
  | send (t : Task)
  /-- A loop takes a step. -/
  | work (s : WriterStep)
  /-- A loop ends. -/
  | stop (loop : WriterLoop)
  /-- Others change the catalog. -/
  | others (c : Catalog)

/-- What has become of the snapshots, each list in the order of time. -/
structure PipelineLog where
  /-- The snapshots that were sent. -/
  sent : List Task := []
  /-- The snapshots that were put, and whether each put succeeded. -/
  puts : List (Task × Bool) := []
  /-- For each change of the catalog by others, the catalog before and after it. -/
  others : List (Catalog × Catalog) := []
  /-- The number of steps that the loops have taken, their ends included. -/
  steps : Nat := 0

/-- The task has these identifiers. -/
def Task.HasKey (jobId id : String) (t : Task) : Prop := t.jobId = jobId ∧ t.id = id

instance (jobId id : String) : DecidablePred (Task.HasKey jobId id) :=
  fun t => inferInstanceAs (Decidable (t.jobId = jobId ∧ t.id = id))

/-- The row of a task. -/
def Catalog.taskRow (c : Catalog) (jobId id : String) : Option TaskRow := (c.bucket jobId).get? id

/-- A put overwrites the row of its own task only. -/
theorem Catalog.taskRow_putTask (c : Catalog) (t : Task) (jobId id : String) :
    (c.putTask t).taskRow jobId id =
      if t.HasKey jobId id then some t.row else c.taskRow jobId id := by
  rw [taskRow, bucket_putTask]
  by_cases hJob : t.jobId = jobId
  · simp [hJob, Dict.get?_insert, Task.HasKey, taskRow]
  · simp [hJob, Task.HasKey, taskRow]

namespace PipelineLog

/-- Nobody else has touched the row of a task. -/
def Untouched (l : PipelineLog) (jobId id : String) : Prop :=
  ∀ x ∈ l.others, x.2.taskRow jobId id = x.1.taskRow jobId id

/-- The puts of a task. -/
def putsOf (l : PipelineLog) (jobId id : String) : List (Task × Bool) :=
  l.puts.filter fun x => x.1.HasKey jobId id

/-- The last snapshot of a task of which the put succeeded. -/
def lastPut? (l : PipelineLog) (jobId id : String) : Option Task :=
  ((l.putsOf jobId id).filter (·.2)).getLast?.map (·.1)

end PipelineLog

namespace Pipeline

/-- Whether a loop has not ended. -/
def runs (p : Pipeline) : WriterLoop → Bool
  | .forwarding => p.forwards
  | .putting => p.puts
  | .draining => p.drains

/-- Whether nothing can come to a loop any more. -/
def atEnd (p : Pipeline) : WriterLoop → Bool
  | .forwarding => p.handles = 0 && p.writer.updates.isEmpty && p.writer.forwarding.isNone
  | .putting => !p.forwards && p.writer.stream.isEmpty && p.writer.answering.isNone
  | .draining => !p.puts && p.writer.answers.isEmpty

/-- Whether a loop has something in its hands that nobody will take. -/
def cutOff (p : Pipeline) : WriterLoop → Bool
  | .forwarding => p.writer.forwarding.isSome && !p.puts
  | .putting => p.writer.answering.isSome && !p.drains
  | .draining => false

/-- Whether a loop can end. -/
def canStop (p : Pipeline) (loop : WriterLoop) : Bool :=
  p.runs loop && (p.atEnd loop || p.cutOff loop)

/-- The pipeline after the end of a loop. -/
def stop (p : Pipeline) : WriterLoop → Pipeline
  | .forwarding => { p with forwards := false }
  | .putting => { p with puts := false }
  | .draining => { p with drains := false }

/-- The pipeline after a snapshot was sent. It is dropped when the loop that forwards has ended. -/
def send (p : Pipeline) (t : Task) : Pipeline :=
  if p.forwards then { p with writer := p.writer.send t } else p

/-- The catalog after a step, which is changed by a put that succeeds. -/
def store (c : Catalog) (s : WriterStep) (put : Option Task) : Catalog :=
  (put.filter fun _ => s.succeeds).elim c c.putTask

/-- The pipeline after a step of a loop, if the loop and the one that it passes something on to have
not ended, with the snapshot that was put. -/
def work (p : Pipeline) (s : WriterStep) : Option (Pipeline × Option Task) :=
  if p.runs s.loop && s.consumer?.all p.runs then
    (p.writer.step s).map fun (writer, put) =>
      ({ p with writer, catalog := store p.catalog s put }, put)
  else none

/-- A pipeline and its log after something that can happen. -/
def follow (p : Pipeline) (l : PipelineLog) : PipelineEvent → Option (Pipeline × PipelineLog)
  | .attach => if p.handles = 0 then none else some ({ p with handles := p.handles + 1 }, l)
  | .detach => if p.handles = 0 then none else some ({ p with handles := p.handles - 1 }, l)
  | .send t =>
    if p.handles = 0 then none else some (p.send t, { l with sent := l.sent ++ [t] })
  | .work s => (p.work s).map fun (p', put) =>
      (p', { l with
        puts := l.puts ++ put.toList.map (·, s.succeeds)
        steps := l.steps + 1 })
  | .stop loop =>
    if p.canStop loop then some (p.stop loop, { l with steps := l.steps + 1 }) else none
  | .others c => some ({ p with catalog := c }, { l with others := l.others ++ [(p.catalog, c)] })

/-- A pipeline with a stream for so many snapshots and so many handles, over a catalog. -/
def start (buffer handles : Nat) (c : Catalog) : Pipeline :=
  { writer := .ofBuffer buffer, catalog := c, handles }

/-- A pipeline and its log after any events. -/
inductive Observed (buffer handles : Nat) (c : Catalog) : Pipeline → PipelineLog → Prop
  | start : Observed buffer handles c (start buffer handles c) {}
  | next {p p' : Pipeline} {l l' : PipelineLog} {ev : PipelineEvent}
      (h : Observed buffer handles c p l) (hEvent : p.follow l ev = some (p', l')) :
      Observed buffer handles c p' l'

/-- No loop can take a step or end. -/
def AtRest (p : Pipeline) : Prop :=
  (∀ s, p.work s = none) ∧ ∀ loop, p.canStop loop = false

/-! ## What every event keeps -/

variable {p p' : Pipeline} {l l' : PipelineLog} {buffer handles : Nat} {c : Catalog}
  {s : WriterStep} {put : Option Task} {loop : WriterLoop}

/-- What is always true of a pipeline: a loop has ended only when nothing can come to it any
more. -/
structure Sound (p : Pipeline) : Prop where
  room     : 0 < p.writer.capacity
  forwards : p.forwards = false →
    p.handles = 0 ∧ p.writer.updates = [] ∧ p.writer.forwarding = none
  puts     : p.puts = false → p.forwards = false ∧ p.writer.stream = [] ∧ p.writer.answering = none
  drains   : p.drains = false → p.puts = false ∧ p.writer.answers = []

/-- The number of loops that have not ended. -/
def loopsAhead (p : Pipeline) : Nat := p.forwards.toNat + p.puts.toNat + p.drains.toNat

/-- What is always true of a pipeline together with its log. -/
structure Tallied (c : Catalog) (p : Pipeline) (l : PipelineLog) : Prop where
  order   : l.sent = l.puts.map (·.1) ++ p.writer.backlog
  bounded : l.steps + p.writer.stepsAhead + p.loopsAhead = 5 * l.sent.length + 3
  stored  : ∀ jobId id, l.Untouched jobId id → p.catalog.taskRow jobId id =
    ((l.lastPut? jobId id).map Task.row <|> c.taskRow jobId id)

/-- No loop ends with something in its hands, because the next one ends after it. -/
theorem Sound.not_cutOff (h : p.Sound) : p.cutOff loop = false := by
  cases loop with
  | forwarding =>
    cases hPuts : p.puts with
    | true => simp [cutOff, hPuts]
    | false => simp [cutOff, (h.forwards (h.puts hPuts).1).2.2]
  | putting =>
    cases hDrains : p.drains with
    | true => simp [cutOff, hDrains]
    | false => simp [cutOff, (h.puts (h.drains hDrains).1).2.2]
  | draining => rfl

/-- A loop that can stop was still running and has reached its end. -/
theorem Sound.atEnd_of_canStop (h : p.Sound) (hStop : p.canStop loop = true) :
    p.runs loop = true ∧ p.atEnd loop = true := by
  simpa [canStop, h.not_cutOff] using hStop

/-- Stopping a loop keeps the pipeline sound. -/
theorem Sound.stop (h : p.Sound) (hStop : p.canStop loop = true) : (p.stop loop).Sound := by
  obtain ⟨hRuns, hEnd⟩ := h.atEnd_of_canStop hStop
  -- each loop stops when the one before it has stopped and left nothing
  cases loop with
  | forwarding =>
    have hDone : (p.handles = 0 ∧ p.writer.updates = []) ∧ p.writer.forwarding = none := by
      simpa [atEnd] using hEnd
    exact ⟨h.room, fun _ => ⟨hDone.1.1, hDone.1.2, hDone.2⟩, fun hPuts => ⟨rfl, (h.puts hPuts).2⟩,
      h.drains⟩
  | putting =>
    have hDone : (p.forwards = false ∧ p.writer.stream = []) ∧ p.writer.answering = none := by
      simpa [atEnd] using hEnd
    exact ⟨h.room, h.forwards, fun _ => ⟨hDone.1.1, hDone.1.2, hDone.2⟩,
      fun hDrains => ⟨rfl, (h.drains hDrains).2⟩⟩
  | draining =>
    have hDone : p.puts = false ∧ p.writer.answers = [] := by simpa [atEnd] using hEnd
    exact ⟨h.room, h.forwards, h.puts, fun _ => hDone⟩

/-- What a step of a loop does to the pipeline. -/
theorem work_eq_some (h : p.work s = some (p', put)) :
    p.runs s.loop = true ∧ (∀ next, s.consumer? = some next → p.runs next = true) ∧
      ∃ w, p.writer.step s = some (w, put) ∧
        p' = { p with writer := w, catalog := store p.catalog s put } := by
  simp only [work, Option.ite_none_right_eq_some, Bool.and_eq_true, Option.map_eq_some_iff] at h
  obtain ⟨⟨hRuns, hNext⟩, ⟨w, put'⟩, hStep, hEq⟩ := h
  cases hEq
  refine ⟨hRuns, fun next hSome => ?_, w, hStep, rfl⟩
  rwa [hSome] at hNext

/-- A step of the writer keeps the pipeline sound. -/
theorem Sound.work (h : p.Sound) (hWork : p.work s = some (p', put)) : p'.Sound := by
  obtain ⟨hRuns, hNext, w, hStep, rfl⟩ := work_eq_some hWork
  -- the loop that takes the step has not ended, nor has the one that it passes something on to
  cases Writer.stepped_of_step hStep with
  | took | passed =>
    have hForwards : p.forwards ≠ false := by simpa [WriterStep.loop, runs] using hRuns
    refine ⟨h.room, fun hEnded => absurd hEnded hForwards, fun hEnded => ?_, h.drains⟩
    exact absurd (h.puts hEnded).1 hForwards
  | put | answered =>
    have hPuts : p.puts ≠ false := by simpa [WriterStep.loop, runs] using hRuns
    exact ⟨h.room, h.forwards, fun hEnded => absurd hEnded hPuts,
      fun hEnded => absurd (h.drains hEnded).1 hPuts⟩
  | drained =>
    have hDrains : p.drains ≠ false := by simpa [WriterStep.loop, runs] using hRuns
    exact ⟨h.room, h.forwards, h.puts, fun hEnded => absurd hEnded hDrains⟩

/-- As long as there is a handle, what it sends is taken in. -/
theorem Sound.forwards_of_handles (h : p.Sound) (hHandles : p.handles ≠ 0) : p.forwards = true := by
  cases hForwards : p.forwards with
  | true => rfl
  | false => exact absurd (h.forwards hForwards).1 hHandles

/-- Every event keeps the pipeline sound. -/
theorem Sound.follow {ev : PipelineEvent} (h : p.Sound) (hEvent : p.follow l ev = some (p', l')) :
    p'.Sound := by
  cases ev with
  | attach | detach =>
    simp only [Pipeline.follow, Option.ite_none_left_eq_some] at hEvent
    obtain ⟨hHandles, hEq⟩ := hEvent
    cases hEq
    -- while there is a handle the forwarding loop goes on
    have hForwards := h.forwards_of_handles hHandles
    exact ⟨h.room, fun hEnded => absurd hForwards (by simp [show p.forwards = false from hEnded]),
      h.puts, h.drains⟩
  | send t =>
    simp only [Pipeline.follow, Option.ite_none_left_eq_some] at hEvent
    obtain ⟨hHandles, hEq⟩ := hEvent
    cases hEq
    have hForwards := h.forwards_of_handles hHandles
    rw [send, if_pos hForwards]
    exact ⟨h.room, fun hEnded => absurd hForwards (by simp [show p.forwards = false from hEnded]),
      h.puts, h.drains⟩
  | work s =>
    obtain ⟨⟨p₁, put⟩, hWork, hEq⟩ := Option.map_eq_some_iff.mp hEvent
    cases hEq
    exact h.work hWork
  | stop loop =>
    simp only [Pipeline.follow, Option.ite_none_right_eq_some] at hEvent
    obtain ⟨hStop, hEq⟩ := hEvent
    cases hEq
    exact h.stop hStop
  | others c' =>
    cases hEvent
    exact ⟨h.room, h.forwards, h.puts, h.drains⟩

/-- The last put of a task, after one more. -/
theorem lastPut?_concat (l : PipelineLog) (t : Task) (success : Bool) (steps : Nat)
    (jobId id : String) :
    { l with puts := l.puts ++ [(t, success)], steps }.lastPut? jobId id =
      if t.HasKey jobId id ∧ success = true then some t else l.lastPut? jobId id := by
  by_cases hKey : t.HasKey jobId id
  · cases success <;>
      simp [PipelineLog.lastPut?, PipelineLog.putsOf, List.filter_append, hKey]
  · simp [PipelineLog.lastPut?, PipelineLog.putsOf, List.filter_append, hKey]

/-- What the writer puts is the next of what was sent. -/
theorem Tallied.work (h : Tallied c p l) (hWork : p.work s = some (p', put)) :
    Tallied c p' { l with
      puts := l.puts ++ put.toList.map (·, s.succeeds)
      steps := l.steps + 1 } := by
  obtain ⟨-, -, w, hStep, rfl⟩ := work_eq_some hWork
  refine ⟨?_, ?_, fun jobId id hUntouched => ?_⟩
  · show l.sent = (l.puts ++ put.toList.map (·, s.succeeds)).map (·.1) ++ w.backlog
    -- what was put comes out of the backlog at its front
    have hSame : (put.toList.map (·, s.succeeds)).map (·.1) = put.toList := by cases put <;> rfl
    rw [List.map_append, hSame, List.append_assoc, ← Writer.backlog_of_step hStep]
    exact h.order
  · have hBounded := h.bounded
    have hAhead := Writer.stepsAhead_of_step hStep
    show l.steps + 1 + w.stepsAhead + p.loopsAhead = 5 * l.sent.length + 3
    omega
  · have hStored := h.stored jobId id hUntouched
    -- only a put that succeeds changes a row, and then the row of its task
    cases put with
    | none =>
      have hPuts : l.puts ++ (none : Option Task).toList.map (·, s.succeeds) = l.puts := by simp
      rw [hPuts]
      exact hStored
    | some t =>
      show (store p.catalog s (some t)).taskRow jobId id =
        ((PipelineLog.lastPut? { l with
          puts := l.puts ++ [(t, s.succeeds)]
          steps := l.steps + 1 } jobId id).map Task.row <|> c.taskRow jobId id)
      rw [lastPut?_concat]
      cases hSuccess : s.succeeds with
      | false => simpa [store, hSuccess] using hStored
      | true =>
        simp only [store, hSuccess, Option.filter_some, if_true, Option.elim_some,
          Catalog.taskRow_putTask, and_true]
        split
        · rfl
        · exact hStored

theorem Tallied.stop (h : Tallied c p l) (hRuns : p.runs loop = true) :
    Tallied c (p.stop loop) { l with steps := l.steps + 1 } := by
  have hBounded := h.bounded
  -- stopping a loop is the step that it had ahead
  have hLoops : (p.stop loop).loopsAhead + 1 = p.loopsAhead := by
    cases loop <;> simp only [runs] at hRuns <;> simp [loopsAhead, Pipeline.stop, hRuns] <;> omega
  have hWriter : (p.stop loop).writer = p.writer := by cases loop <;> rfl
  have hCatalog : (p.stop loop).catalog = p.catalog := by cases loop <;> rfl
  refine ⟨?_, ?_, fun jobId id hUntouched => ?_⟩
  · rw [hWriter]
    exact h.order
  · show l.steps + 1 + (p.stop loop).writer.stepsAhead + (p.stop loop).loopsAhead =
      5 * l.sent.length + 3
    rw [hWriter]
    omega
  · rw [hCatalog]
    exact h.stored jobId id hUntouched

/-- What is sent waits behind what was sent before. -/
theorem Tallied.send (h : Tallied c p l) (hForwards : p.forwards = true) (t : Task) :
    Tallied c (p.send t) { l with sent := l.sent ++ [t] } := by
  have hBounded := h.bounded
  rw [Pipeline.send, if_pos hForwards]
  refine ⟨?_, ?_, h.stored⟩
  · show l.sent ++ [t] = l.puts.map (·.1) ++ (p.writer.send t).backlog
    rw [h.order]
    simp [Writer.send, Writer.backlog]
  · show l.steps + (p.writer.send t).stepsAhead + p.loopsAhead = 5 * (l.sent ++ [t]).length + 3
    simp only [Writer.stepsAhead, Writer.send, List.length_append, List.length_cons,
      List.length_nil] at hBounded ⊢
    omega

/-- Every event keeps the tally. -/
theorem Tallied.follow {ev : PipelineEvent} (h : Tallied c p l) (hSound : p.Sound)
    (hEvent : p.follow l ev = some (p', l')) : Tallied c p' l' := by
  cases ev with
  | attach | detach =>
    simp only [Pipeline.follow, Option.ite_none_left_eq_some] at hEvent
    obtain ⟨-, hEq⟩ := hEvent
    cases hEq
    exact ⟨h.order, h.bounded, h.stored⟩
  | send t =>
    simp only [Pipeline.follow, Option.ite_none_left_eq_some] at hEvent
    obtain ⟨hHandles, hEq⟩ := hEvent
    cases hEq
    exact h.send (hSound.forwards_of_handles hHandles) t
  | work s =>
    obtain ⟨⟨p₁, put⟩, hWork, hEq⟩ := Option.map_eq_some_iff.mp hEvent
    cases hEq
    exact h.work hWork
  | stop loop =>
    simp only [Pipeline.follow, Option.ite_none_right_eq_some] at hEvent
    obtain ⟨hStop, hEq⟩ := hEvent
    cases hEq
    exact h.stop (hSound.atEnd_of_canStop hStop).1
  | others c' =>
    cases hEvent
    -- others may write, but not to a task that was left untouched
    refine ⟨h.order, h.bounded, fun jobId id hUntouched => ?_⟩
    have hLast := hUntouched (p.catalog, c') (List.mem_append_right _ (List.mem_singleton_self _))
    exact hLast.trans (h.stored jobId id fun x hx => hUntouched x (List.mem_append_left _ hx))

/-- Whatever happens, a loop has ended only when nothing can come to it, and the log tells what has
become of every snapshot. -/
theorem Observed.tallied (h : Observed buffer handles c p l) : p.Sound ∧ Tallied c p l := by
  induction h with
  | start =>
    refine ⟨⟨Nat.lt_of_lt_of_le Nat.zero_lt_one (Nat.le_max_right _ _), ?_, ?_, ?_⟩, rfl, rfl,
      fun jobId id _ => rfl⟩
    all_goals exact fun hEnded => absurd hEnded (by simp [Pipeline.start])
  | next _ hEvent ih => exact ⟨ih.1.follow hEvent, ih.2.follow ih.1 hEvent⟩

/-! ## Rest -/

/-- **A pipeline at rest has nothing left**, whether its loops have ended or wait for more. -/
theorem Sound.nothing_left (h : p.Sound) (hRest : p.AtRest) :
    p.writer.updates = [] ∧ p.writer.forwarding = none ∧ p.writer.stream = [] ∧
      (p.puts = true → p.writer.answering = none) ∧ (p.drains = true → p.writer.answers = []) := by
  obtain ⟨hStuck, -⟩ := hRest
  -- the loops are freed one after another, beginning with the last
  have hAnswers : p.drains = true → p.writer.answers = [] := fun hDrains => by
    cases hList : p.writer.answers with
    | nil => rfl
    | cons a rest =>
      exact absurd (hStuck .drain)
        (by simp [Pipeline.work, WriterStep.loop, WriterStep.consumer?, runs, hDrains, Writer.step,
          hList])
  have hAnswering : p.puts = true → p.writer.answering = none := fun hPuts => by
    have hDrains : p.drains = true := by
      cases hDrains : p.drains with
      | true => rfl
      | false => exact absurd (h.drains hDrains).1 (by simp [hPuts])
    cases hHand : p.writer.answering with
    | none => rfl
    | some a =>
      exact absurd (hStuck .answer) (by simp [Pipeline.work, WriterStep.loop, WriterStep.consumer?,
        runs, hPuts, hDrains, Writer.step, hHand, hAnswers hDrains, answerCapacity])
  have hStream : p.writer.stream = [] := by
    cases hPuts : p.puts with
    | false => exact (h.puts hPuts).2.1
    | true =>
      cases hList : p.writer.stream with
      | nil => rfl
      | cons t rest =>
        exact absurd (hStuck (.put true)) (by simp [Pipeline.work, WriterStep.loop,
          WriterStep.consumer?, runs, hPuts, Writer.step, hAnswering hPuts, hList])
  cases hForwards : p.forwards with
  | false =>
    obtain ⟨-, hUpdates, hHand⟩ := h.forwards hForwards
    exact ⟨hUpdates, hHand, hStream, hAnswering, hAnswers⟩
  | true =>
    have hPuts : p.puts = true := by
      cases hPuts : p.puts with
      | true => rfl
      | false => exact absurd (h.puts hPuts).1 (by simp [hForwards])
    have hHand : p.writer.forwarding = none := by
      cases hHand : p.writer.forwarding with
      | none => rfl
      | some t =>
        exact absurd (hStuck .forward) (by simp [Pipeline.work, WriterStep.loop,
          WriterStep.consumer?, runs, hForwards, hPuts, Writer.step, hHand, hStream, h.room])
    refine ⟨?_, hHand, hStream, hAnswering, hAnswers⟩
    cases hUpdates : p.writer.updates with
    | nil => rfl
    | cons t rest =>
      exact absurd (hStuck .take) (by simp [Pipeline.work, WriterStep.loop, WriterStep.consumer?,
        runs, hForwards, Writer.step, hHand, hUpdates])

/-- When no handle is left, a pipeline comes to rest only by the end of its loops. -/
theorem Sound.ended (h : p.Sound) (hRest : p.AtRest) (hHandles : p.handles = 0)
    (loop : WriterLoop) : p.runs loop = false := by
  obtain ⟨hUpdates, hHand, hStream, hAnswering, hAnswers⟩ := h.nothing_left hRest
  have hStuck := hRest.2
  -- the loops end in turn, each when the one before it has ended
  have hForwards : p.forwards = false := by
    have hStop := hStuck .forwarding
    simpa [canStop, runs, atEnd, hHandles, hUpdates, hHand] using hStop
  have hPuts : p.puts = false := by
    cases hPuts : p.puts with
    | false => rfl
    | true =>
      have hStop := hStuck .putting
      simp [canStop, runs, atEnd, hPuts, hForwards, hStream, hAnswering hPuts] at hStop
  have hDrains : p.drains = false := by
    cases hDrains : p.drains with
    | false => rfl
    | true =>
      have hStop := hStuck .draining
      simp [canStop, runs, atEnd, hDrains, hPuts, hAnswers hDrains] at hStop
  cases loop
  · exact hForwards
  · exact hPuts
  · exact hDrains

/-! ## One writer -/

/-- What a writer with its handles guarantees, when the catalog was this one at its start. -/
structure Written (c : Catalog) (p : Pipeline) (l : PipelineLog) : Prop where
  /-- The snapshots are put in the order in which they are sent, none of them twice. -/
  ordered  : l.puts.map (·.1) <+: l.sent
  /-- What was sent and not put is on its way, whether puts fail or not. -/
  lossless : l.sent = l.puts.map (·.1) ++ p.writer.backlog
  /-- What a handle sends is taken in. -/
  heard    : p.handles ≠ 0 → p.forwards = true
  /-- No loop is left with something in its hands. -/
  whole    : ∀ loop, p.cutOff loop = false
  /-- Rest is not put off: so many snapshots give so many steps, and three ends. -/
  bounded  : l.steps ≤ 5 * l.sent.length + 3
  /-- At rest, everything that was sent was put, and without handles all loops have ended. -/
  rested   : p.AtRest → l.puts.map (·.1) = l.sent ∧
    (p.handles = 0 → ∀ loop, p.runs loop = false)
  /-- The row of a task that nobody else touches is that of its last snapshot of which the put
  succeeded. -/
  stored   : ∀ jobId id, l.Untouched jobId id → p.catalog.taskRow jobId id =
    ((l.lastPut? jobId id).map Task.row <|> c.taskRow jobId id)
  /-- At rest, the last snapshot of a task is the last one that was put, and its row is stored,
  unless that put failed. -/
  latest   : p.AtRest → ∀ jobId id t, (l.sent.filter (·.HasKey jobId id)).getLast? = some t →
    ∃ success, (l.putsOf jobId id).getLast? = some (t, success) ∧
      (success = true → l.Untouched jobId id → p.catalog.taskRow jobId id = some t.row)

/-- **The writer loses, duplicates and reorders nothing**: whatever is sent by however many task
handles, whenever they go, whatever the capacity of the stream into `put_task_stream`, whether puts
fail or not, and in whatever order the loops take their steps. -/
theorem Observed.written (h : Observed buffer handles c p l) : Written c p l := by
  obtain ⟨hSound, hTallied⟩ := h.tallied
  have hAll : p.AtRest → l.puts.map (·.1) = l.sent := fun hRest => by
    obtain ⟨hUpdates, hHand, hStream, -, -⟩ := hSound.nothing_left hRest
    have hOrder := hTallied.order
    simp only [Writer.backlog, hUpdates, hHand, hStream, Option.toList_none, List.append_nil]
      at hOrder
    exact hOrder.symm
  have hBounded := hTallied.bounded
  refine ⟨⟨_, hTallied.order.symm⟩, hTallied.order, hSound.forwards_of_handles,
    fun loop => hSound.not_cutOff, by omega, fun hRest => ⟨hAll hRest, hSound.ended hRest⟩,
    hTallied.stored, fun hRest jobId id t hLast => ?_⟩
  -- the puts of the task are those of its snapshots, one each
  rw [← hAll hRest, List.filter_map, List.getLast?_map, Option.map_eq_some_iff] at hLast
  obtain ⟨⟨t', success⟩, hPut, rfl⟩ := hLast
  refine ⟨success, hPut, fun hSuccess hUntouched => ?_⟩
  have hKept : l.lastPut? jobId id = some t' := by
    obtain ⟨before, hPuts⟩ := List.getLast?_eq_some_iff.mp hPut
    have hPutsOf : l.putsOf jobId id = before ++ [(t', success)] := hPuts
    rw [PipelineLog.lastPut?, hPutsOf, List.filter_append, hSuccess]
    simp
  rw [hTallied.stored jobId id hUntouched, hKept]
  rfl

/-! ## One run -/

/-- A pipeline and its log after events that can happen one after another. -/
def followAll (p : Pipeline) (l : PipelineLog) :
    List PipelineEvent → Option (Pipeline × PipelineLog)
  | [] => some (p, l)
  | ev :: evs => (p.follow l ev).bind fun (p, l) => followAll p l evs

/-- The run lemma of the pipeline, by induction on the events. -/
theorem Observed.of_followAll {evs : List PipelineEvent} (h : Observed buffer handles c p l)
    (hAll : followAll p l evs = some (p', l')) : Observed buffer handles c p' l' := by
  induction evs generalizing p l with
  | nil =>
    obtain ⟨rfl, rfl⟩ := Prod.mk.inj (Option.some.inj hAll)
    exact h
  | cons ev evs ih =>
    obtain ⟨⟨p₁, l₁⟩, hEvent, hRest⟩ := Option.bind_eq_some_iff.mp hAll
    exact ih (h.next hEvent) hRest

/-- A snapshot of a task. -/
def shot (id : String) (status : TaskStatus) : Task := { id, jobId := "j", status }

/-- Two handles send snapshots while others save a job, one of the puts fails, and the handles go
before the pipeline is empty. -/
def handlesGone : List PipelineEvent :=
  [.others (Catalog.empty.putJob { id := "j" }), .attach, .send (shot "t" .idle),
    .send (shot "u" .idle), .detach, .work .take, .work .forward, .work (.put false),
    .work .answer, .work .drain, .work .take, .send (shot "t" .finished), .detach, .work .forward,
    .work .take, .work (.put true), .work .forward, .work .answer, .stop .forwarding,
    .work (.put true), .work .drain, .work .answer, .stop .putting, .work .drain, .stop .draining]

/-- At the end of that run, the catalog has the last snapshot of each task. -/
theorem written_handlesGone : ∃ p l, Observed 0 1 Catalog.empty p l ∧ Written Catalog.empty p l ∧
    p.AtRest ∧ l.sent = [shot "t" .idle, shot "u" .idle, shot "t" .finished] ∧
    l.puts.map (·.2) = [false, true, true] ∧
    p.catalog.taskRow "j" "t" = some (shot "t" .finished).row ∧
    p.catalog.taskRow "j" "u" = some (shot "u" .idle).row := by
  -- the run itself is evaluated, and what is said of it follows from the theorem
  obtain ⟨p, l, hRun, hEnded, hSent, hPuts, hOthers⟩ : ∃ p l,
      followAll (start 0 1 Catalog.empty) {} handlesGone = some (p, l) ∧
      (p.forwards = false ∧ p.puts = false ∧ p.drains = false) ∧
      l.sent = [shot "t" .idle, shot "u" .idle, shot "t" .finished] ∧
      l.puts = [(shot "t" .idle, false), (shot "u" .idle, true), (shot "t" .finished, true)] ∧
      l.others = [(Catalog.empty, Catalog.empty.putJob { id := "j" })] :=
    ⟨_, _, rfl, ⟨rfl, rfl, rfl⟩, rfl, rfl, rfl⟩
  have hObserved := Observed.start.of_followAll hRun
  have hWritten := hObserved.written
  have hStopped : ∀ loop, p.runs loop = false := by
    intro loop
    cases loop
    · exact hEnded.1
    · exact hEnded.2.1
    · exact hEnded.2.2
  have hRest : p.AtRest := ⟨fun s => by simp [Pipeline.work, hStopped],
    fun loop => by simp [canStop, hStopped]⟩
  have hUntouched : ∀ id, l.Untouched "j" id := by
    intro id x hx
    rw [hOthers, List.mem_singleton] at hx
    subst hx
    rfl
  have hRow : ∀ id, p.catalog.taskRow "j" id =
      ((l.lastPut? "j" id).map Task.row <|> Catalog.empty.taskRow "j" id) :=
    fun id => hWritten.stored "j" id (hUntouched id)
  refine ⟨p, l, hObserved, hWritten, hRest, hSent, by rw [hPuts]; rfl, ?_, ?_⟩
  · rw [hRow, PipelineLog.lastPut?, PipelineLog.putsOf, hPuts]
    rfl
  · rw [hRow, PipelineLog.lastPut?, PipelineLog.putsOf, hPuts]
    rfl

end Pipeline

end Taskyard
