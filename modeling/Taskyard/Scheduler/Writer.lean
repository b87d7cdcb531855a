import Taskyard.Job.Task

/-!
# Scheduler — the writer of task records

Snapshots of tasks go through a pipeline: an unbounded queue of updates, a loop that forwards them
into a bounded stream, a loop that puts them into the catalog one after another and answers each,
and a loop that takes the answers away. The three loops run side by side.

Main definitions:

* `Writer` — the pipeline.
* `Writer.send` — a snapshot is handed over.
* `WriterStep`, `Writer.step` — the steps of the loops, with the snapshot that a step puts.
-/

namespace Taskyard

/-- The capacity of the channel for answers: `STREAM_BUFFER`. -/
def answerCapacity : Nat := 64

/-- The pipeline that `spawn` sets up: `updates`, the stream of `put_task_stream` and its
answers. -/
structure Writer where
  /-- The capacity of the stream. -/
  capacity : Nat
  /-- The snapshots handed over and not yet taken, the oldest first. -/
  updates : List Task := []
  /-- The snapshot that the forwarding loop holds. -/
  forwarding : Option Task := none
  /-- The snapshots in the stream. -/
  stream : List Task := []
  /-- The answer that the putting loop holds: whether the last put succeeded. -/
  answering : Option Bool := none
  /-- The answers not yet taken away. -/
  answers : List Bool := []

/-- A step of one of the loops: that of `spawn`, that of `put_task_stream`, and the one that drains
the answers. -/
inductive WriterStep where
  /-- The forwarding loop takes an update. -/
  | take
  /-- The forwarding loop passes it into the stream. -/
  | forward
  /-- The putting loop takes a snapshot from the stream and puts it, with or without success. -/
  | put (success : Bool)
  /-- The putting loop passes its answer on. -/
  | answer
  /-- An answer is taken away. -/
  | drain
  deriving DecidableEq, Repr

namespace Writer

/-- The pipeline with a stream for so many snapshots, at least one: `task_update_buffer`. -/
def ofBuffer (buffer : Nat) : Writer := { capacity := max buffer 1 }

/-- The pipeline after a snapshot was handed over by `persist`. -/
def send (w : Writer) (t : Task) : Writer := { w with updates := w.updates ++ [t] }

/-- The pipeline after a step that can be taken, and the snapshot that was put. -/
def step (w : Writer) : WriterStep → Option (Writer × Option Task)
  | .take =>
    match w.forwarding, w.updates with
    | none, t :: rest => some ({ w with updates := rest, forwarding := some t }, none)
    | _, _ => none
  | .forward =>
    match w.forwarding with
    | some t =>
      if w.stream.length < w.capacity then
        some ({ w with forwarding := none, stream := w.stream ++ [t] }, none)
      else none
    | none => none
  | .put success =>
    match w.answering, w.stream with
    | none, t :: rest => some ({ w with stream := rest, answering := some success }, some t)
    | _, _ => none
  | .answer =>
    match w.answering with
    | some a =>
      if w.answers.length < answerCapacity then
        some ({ w with answering := none, answers := w.answers ++ [a] }, none)
      else none
    | none => none
  | .drain =>
    match w.answers with
    | _ :: rest => some ({ w with answers := rest }, none)
    | [] => none

/-- The snapshots that were handed over and are not yet put, the oldest first. -/
def backlog (w : Writer) : List Task := w.stream ++ w.forwarding.toList ++ w.updates

end Writer

end Taskyard
