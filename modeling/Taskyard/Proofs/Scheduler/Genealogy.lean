import Mathlib.Logic.Function.Basic
import Taskyard.Proofs.Scheduler.Changes
import Taskyard.Proofs.Scheduler.Handover
import Taskyard.Proofs.Scheduler.Ledger

/-!
# Scheduler — the ancestors of runnables

A runnable goes from the main queue to the queue of a dispatcher, to its loop and to a worker, and
what it leads to goes into the main queue again, among the runnables of other branches and of other
tasks. Nothing in a runnable tells where it comes from. So every place that can hold a runnable is
given a lineage here: the runs that led to what it holds, each with the output that it appended.
Lineages move with the runnables, and a lineage grows when a run returns a message.

What fits a runnable with its lineage stays so along all of these moves, whatever it is; only what
is newly queued has to be looked at.

Main definitions and results:

* `Machine.seenAt` — what is seen of a dispatcher, and what changes of the service leave of it.
* `Lineage`, `Genealogy` — the lineages of all places, and `Genealogy.follow` for a step.
* `Machine.genealogy` — the lineages after a run.
* `Tracks` — what every place holds fits its lineage.
* `Tracks.step` — every step keeps this, if what it queues fits.
-/

namespace Taskyard

/-- The runs that led to a runnable, the first one first, each with the output that it appended. -/
abbrev Lineage := List (Runnable × Output)

/-! ## Runs that end -/

/-- The run that the next step of an execution ends, with the newest output of the message that it
returns. -/
def Execution.ending (now : Int64) (e : Execution) : Lineage :=
  match e.phase with
  | .running (.finish result) => (result now).lastOutput.toList.map (e.runnable, ·)
  | _ => []

namespace Machine

def execution? (m : Machine) (bench worker : Nat) : Option Execution :=
  (m.benches[bench]?).bind (·.execution? worker)

/-- There is a task for what is executed. -/
theorem Sound.exists_task_of_execution? {m : Machine} (h : m.Sound) {n w : Nat} {e : Execution}
    (he : m.execution? n w = some e) : ∃ t, m.floor.tasks[e.runnable.task]? = some t := by
  obtain ⟨b, hb, hBusy⟩ := Option.bind_eq_some_iff.mp he
  exact ⟨_, List.getElem?_eq_getElem (h.valid _ (mem_duties_of_execution hb hBusy))⟩

/-- The run of a handler that a step ends, if it ends one. -/
def endings (m : Machine) : MachineStep → Lineage
  | .work n w => (m.execution? n w).elim [] (·.ending m.floor.now)
  | _ => []

def queueAt (m : Machine) (bench : Nat) : List Runnable := (m.benches[bench]?).elim [] (·.queue)

/-! ## What is seen of dispatchers -/

section Seen

variable {α : Type} {blank : α} {see : Bench → α}

/-- What is seen of a dispatcher by its number, which is nothing where there is none. -/
def seenAt (blank : α) (see : Bench → α) (m : Machine) (bench : Nat) : α :=
  (m.benches[bench]?).elim blank see

/-- Nothing is seen of a new dispatcher either. -/
theorem seenAt_engage (hNew : ∀ k, see (.start k) = blank) (m : Machine) (jobId : String)
    (workers n : Nat) : (m.engage jobId workers).seenAt blank see n = m.seenAt blank see n := by
  simp only [seenAt, engage, List.getElem?_append]
  split
  · rfl
  · next hBeyond =>
    rw [List.getElem?_eq_none (Nat.le_of_not_lt hBeyond), List.getElem?_singleton]
    split
    · exact hNew _
    · rfl

/-- A new dispatcher shows what an empty place does. -/
theorem seenAt_benchFor (hNew : ∀ k, see (.start k) = blank) (u : Setup) (m : Machine) (j : Job)
    (n : Nat) : (m.benchFor u j).1.seenAt blank see n = m.seenAt blank see n := by
  unfold benchFor
  split
  · rfl
  · exact seenAt_engage hNew m _ _ n

/-- A dispatcher that is stopped shows what it did before. -/
theorem seenAt_retire (hStop : ∀ b, see b.stop = see b) (m : Machine) (jobId : String) (n : Nat) :
    (m.retire jobId).seenAt blank see n = m.seenAt blank see n := by
  unfold retire
  split
  · rfl
  · simp only [seenAt, List.getElem?_modify]
    cases m.benches[n]? with
    | none => rfl
    | some b =>
      show see (if _ then _ else _) = see b
      split
      · exact hStop b
      · rfl

/-- So a change of a job hides nothing. -/
theorem seenAt_handleChange (hStop : ∀ b, see b.stop = see b)
    (hNew : ∀ k, see (.start k) = blank) (u : Setup) (m : Machine) (c : JobChange) (n : Nat) :
    (m.handleChange u c).seenAt blank see n = m.seenAt blank see n :=
  handleChange_induction (P := fun x => x.seenAt blank see n = m.seenAt blank see n)
    (fun x jobId h => (seenAt_retire hStop x jobId n).trans h)
    (fun x jobId workers h => (seenAt_engage hNew x jobId workers n).trans h) (fun _ _ h => h) u c rfl

theorem seenAt_stopDispatchers (hStop : ∀ b, see b.stop = see b) (m : Machine) (n : Nat) :
    m.stopDispatchers.seenAt blank see n = m.seenAt blank see n :=
  stopDispatchers_induction (P := fun x => x.seenAt blank see n = m.seenAt blank see n)
    (fun x jobId h => (seenAt_retire hStop x jobId n).trans h) rfl

/-- A step of one dispatcher changes what is seen of it alone. -/
theorem seenAt_set {m m' : Machine} {n : Nat} {b : Bench} (hb : m.benches[n]? = some b)
    (b' : Bench) (k : Nat) (hBenches : m'.benches = m.benches.set n b') :
    m'.seenAt blank see k = if n = k then see b' else m.seenAt blank see k := by
  have hLt : n < m.benches.length := (List.getElem?_eq_some_iff.mp hb).1
  simp only [seenAt, hBenches, List.getElem?_set]
  split <;> rfl

end Seen

theorem queueAt_benchFor (u : Setup) (m : Machine) (j : Job) (n : Nat) :
    (m.benchFor u j).1.queueAt n = m.queueAt n :=
  seenAt_benchFor (fun _ => rfl) u m j n

end Machine

/-! ## The lineages of all places -/

/-- The lineages of what a dispatcher holds: in its queue, in its loop, and in the hands of each
worker, who was handed it or executes it. -/
structure BenchLineages where
  queue : List Lineage := []
  loop  : Lineage := []
  hand  : Nat → Lineage := fun _ => []

/-- The lineages of what a machine holds, in the main queue and at each dispatcher by its number. -/
structure Genealogy where
  main  : List Lineage
  bench : Nat → BenchLineages

/-- The lineages of a queue that may have got one more runnable at its end, of this lineage. -/
def grown (before after : List Runnable) (l : Lineage) (ls : List Lineage) : List Lineage :=
  if before.length < after.length then ls ++ [l] else ls

/-- The lineages of a dispatcher after a step of it. -/
def BenchLineages.follow (k : BenchLineages) (b : Bench) : DispatcherStep → BenchLineages
  -- the loop takes from the queue, and the first worker of the pool from the loop
  | .take => { k with queue := k.queue.tail, loop := k.queue.headD [] }
  | .hand =>
    match b.pool with
    | w :: _ => { k with hand := Function.update k.hand w k.loop }
    | [] => k
  | _ => k

namespace Genealogy

def atBench (g : Genealogy) (n : Nat) (k : BenchLineages) : Genealogy :=
  { g with bench := Function.update g.bench n k }

/-- The lineages where nothing is known of the past of what a machine holds. -/
def blank (m : Machine) : Genealogy where
  main := m.floor.main.map fun _ => []
  bench n := { queue := (m.queueAt n).map fun _ => [] }

/-- The lineages after a step, which took the machine `m` to `m'`. -/
def follow (m m' : Machine) (g : Genealogy) : MachineStep → Genealogy
  | .route =>
    match m.router with
    -- the first runnable of the main queue goes to a dispatcher, if it goes anywhere
    | .waiting =>
      { main := g.main.tail
        bench := fun n => { g.bench n with
          queue := grown (m.queueAt n) (m'.queueAt n) (g.main.headD []) (g.bench n).queue } }
    | _ => { g with main := grown m.floor.main m'.floor.main [] g.main }
  -- what an errand queues descends from nothing, and so does what is submitted
  | .call _ | .listen _ => { g with main := grown m.floor.main m'.floor.main [] g.main }
  | .submit _ _ _ =>
    { g with bench := fun n => { g.bench n with
        queue := grown (m.queueAt n) (m'.queueAt n) [] (g.bench n).queue } }
  | .dispatch n s => (m.benches[n]?).elim g fun b => g.atBench n ((g.bench n).follow b s)
  -- what a worker queues descends from what it executes, and from the run of it
  | .work n w =>
    let l := (g.bench n).hand w
    { g.atBench n { g.bench n with
        hand := Function.update (g.bench n).hand w (l ++ m.endings (.work n w)) } with
      main := grown m.floor.main m'.floor.main l g.main }
  | .endRouter => { g with main := [] }
  | _ => g

end Genealogy

/-- The lineages after a run. -/
def Machine.genealogy (u : Setup) (m : Machine) (g : Genealogy) : List MachineStep → Genealogy
  | [] => g
  | s :: ss => (m.step u s).elim g fun m' => genealogy u m' (g.follow m m' s) ss

theorem Machine.genealogy_cons {u : Setup} {m m' : Machine} {s : MachineStep}
    (hStep : m.step u s = some m') (g : Genealogy) (ss : List MachineStep) :
    m.genealogy u g (s :: ss) = m'.genealogy u (g.follow m m' s) ss := by
  rw [genealogy, hStep, Option.elim_some]

/-! ## What fits a lineage -/

/-- What deeds put into the main queue are actions with messages of this kind. -/
def Deed.QueuesOnly (P : Action → Message → Prop) (ds : List Deed) : Prop :=
  ∀ a input, .queue a input ∈ ds → P a input

namespace Deed.QueuesOnly

variable {P : Action → Message → Prop}

theorem tail {d : Deed} {ds : List Deed} (h : QueuesOnly P (d :: ds)) : QueuesOnly P ds :=
  fun a input hMem => h a input (List.mem_cons_of_mem d hMem)

theorem refused {ds : List Deed} (h : QueuesOnly P ds) : QueuesOnly P (Deed.refused ++ ds) := by
  intro a input hMem
  refine h a input ?_
  simpa [Deed.refused] using hMem

theorem turnAway (reason : String) : QueuesOnly P (Machine.turnAway reason) := by
  intro a input hMem
  simp [Machine.turnAway] at hMem

/-- A fault queues nothing. -/
theorem afterFault (r : Runnable) (now : Int64) (reason : String) :
    QueuesOnly P (r.afterFault now reason) := by
  intro a input hMem
  simp [Runnable.afterFault, Runnable.recordFailure] at hMem

theorem afterCrash (r : Runnable) (reason : String) : QueuesOnly P (r.afterCrash reason) := by
  intro a input hMem
  simp [Runnable.afterCrash] at hMem

end Deed.QueuesOnly

section Fits

variable (F : Lineage → Runnable → Prop)

/-- An execution fits a lineage if its runnable does, and, once the run is over, if all that is
still to be queued does. -/
def Execution.Fits (l : Lineage) (e : Execution) : Prop :=
  match e.phase with
  | .doing ds => Deed.QueuesOnly (fun action input => F l { e.runnable with action, input }) ds
  | _ => F l e.runnable

def Worker.Fits (l : Lineage) : Worker Runnable Execution → Prop
  | .handed r => F l r
  | .busy e => e.Fits F l
  | _ => True

def DispatchLoop.Fits (l : Lineage) : DispatchLoop Runnable → Prop
  | .matching r => F l r
  | _ => True

/-- All that a dispatcher holds fits. -/
structure BenchLineages.Fits (k : BenchLineages) (b : Bench) : Prop where
  queue : List.Forall₂ F k.queue b.queue
  loop  : b.loop.Fits F k.loop
  hands : ∀ w x, b.crew[w]? = some x → Worker.Fits F (k.hand w) x

/-- All that the dispatchers hold fits, and there are no lineages of what is in the queue of a
dispatcher that there is not. -/
structure TracksBenches (bench : Nat → BenchLineages) (m : Machine) : Prop where
  benches : ∀ n b, m.benches[n]? = some b → (bench n).Fits F b
  spare   : ∀ n, m.benches[n]? = none → (bench n).queue = []

/-- All that a machine holds fits its lineage. -/
structure Tracks (g : Genealogy) (m : Machine) : Prop where
  main    : List.Forall₂ F g.main m.floor.main
  benches : TracksBenches F g.bench m

end Fits

section Weakening

variable {F F' : Lineage → Runnable → Prop}

/-- What fits in one sense fits in a weaker one. -/
theorem Execution.Fits.imp (hImp : ∀ l r, F l r → F' l r) {l : Lineage} {e : Execution}
    (h : e.Fits F l) : e.Fits F' l := by
  unfold Execution.Fits at h ⊢
  split
  · next ds hDoing =>
    rw [hDoing] at h
    exact fun a input hMem => hImp _ _ (h a input hMem)
  · next hOther =>
    split at h
    · next ds hDoing => exact absurd hDoing (hOther ds)
    · exact hImp _ _ h

theorem Worker.Fits.imp (hImp : ∀ l r, F l r → F' l r) {l : Lineage}
    {x : Worker Runnable Execution} (h : x.Fits F l) : x.Fits F' l := by
  cases x with
  | handed r => exact hImp l r h
  | busy e => exact Execution.Fits.imp hImp h
  | _ => trivial

theorem DispatchLoop.Fits.imp (hImp : ∀ l r, F l r → F' l r) {l : Lineage}
    {loop : DispatchLoop Runnable} (h : loop.Fits F l) : loop.Fits F' l := by
  cases loop with
  | matching r => exact hImp l r h
  | _ => trivial

theorem BenchLineages.Fits.imp (hImp : ∀ l r, F l r → F' l r) {k : BenchLineages} {b : Bench}
    (h : k.Fits F b) : k.Fits F' b :=
  ⟨h.queue.imp hImp, h.loop.imp hImp, fun w x hx => (h.hands w x hx).imp hImp⟩

/-- What fits, fits anything weaker. -/
theorem Tracks.imp (hImp : ∀ l r, F l r → F' l r) {g : Genealogy} {m : Machine}
    (h : Tracks F g m) : Tracks F' g m :=
  ⟨h.main.imp hImp, fun n b hb => (h.benches.benches n b hb).imp hImp, h.benches.spare⟩

end Weakening

variable {F : Lineage → Runnable → Prop}

/-! ## Queues -/

/-- A queue that grew by a runnable that fits still fits. -/
theorem forall₂_grown {ls : List Lineage} {queue queue' : List Runnable} {l : Lineage}
    (h : List.Forall₂ F ls queue) (hNew : queue' = queue ∨ ∃ r, F l r ∧ queue' = queue ++ [r]) :
    List.Forall₂ F (grown queue queue' l ls) queue' := by
  rcases hNew with rfl | ⟨r, hr, rfl⟩
  · rw [grown, if_neg (Nat.lt_irrefl _)]
    exact h
  · have hLonger : queue.length < (queue ++ [r]).length := by
      rw [List.length_append, List.length_singleton]
      exact Nat.lt_succ_self _
    rw [grown, if_pos hLonger]
    exact List.rel_append h (.cons hr .nil)

theorem grown_self (queue : List Runnable) (l : Lineage) (ls : List Lineage) :
    grown queue queue l ls = ls := if_neg (Nat.lt_irrefl _)

/-! ## Executions -/

/-- What a deed puts into the main queue. -/
theorem Floor.main_of_perform {f f' : Floor} {i : Nat} {d : Deed} {more : List Deed}
    (h : f.perform i d = (f', more)) :
    f'.main = f.main ∨
      ∃ action input, d = .queue action input ∧ f'.main = f.main ++ [{ action, task := i, input }] := by
  cases d with
  | mark s =>
    obtain ⟨tasks, writer, hMark⟩ := f.exists_mark i s
    rw [← (Prod.mk.inj h).1, hMark]
    exact Or.inl rfl
  | queue action input =>
    simp only [Floor.perform] at h
    split at h
    · rw [← (Prod.mk.inj h).1]
      exact Or.inr ⟨action, input, rfl, rfl⟩
    · rw [← (Prod.mk.inj h).1]
      exact Or.inl rfl

/-- What is to be done after a deed queues no more than what was to be done with it. -/
theorem Floor.queuesOnly_of_perform {f f' : Floor} {i : Nat} {d : Deed} {more rest : List Deed}
    {P : Action → Message → Prop} (h : f.perform i d = (f', more))
    (hDeeds : Deed.QueuesOnly P (d :: rest)) : Deed.QueuesOnly P (more ++ rest) := by
  cases d with
  | mark s =>
    rw [← (Prod.mk.inj h).2]
    exact hDeeds.tail
  | queue action input =>
    simp only [Floor.perform] at h
    split at h
    · rw [← (Prod.mk.inj h).2]
      exact hDeeds.tail
    · rw [← (Prod.mk.inj h).2]
      exact hDeeds.tail.refused

namespace Execution

/-- The lineage fits all that is queued after the run that the next step ends, if it ends one. -/
def EndsWell (F : Lineage → Runnable → Prop) (u : Setup) (now : Int64) (e : Execution) : Prop :=
  ∀ l result, e.phase = .running (.finish result) → F l e.runnable →
    Deed.QueuesOnly (fun action input => F (l ++ e.ending now) { e.runnable with action, input })
      (e.runnable.afterOutput u.site.backend u.selectionBuffer (result now))

variable {u : Setup} {f f' : Floor} {t : LiveTask} {e : Execution} {next : Option Execution}
  {l : Lineage}

/-- An execution that does not end a run keeps its lineage as it goes on by itself. -/
theorem fits_next {j : Job} {taskId : String} {r : Runnable} {p p' : Phase} {s : Option TaskStep}
    (hNext : Phase.Next u j taskId r p s p') (hFinish : ∀ result, p ≠ .running (.finish result))
    (h : Execution.Fits F l ⟨r, p⟩) : Execution.Fits F l ⟨r, p'⟩ := by
  cases hNext with
  | finish result => exact absurd rfl (hFinish result)
  | unknown now | refused now | refuse _ now | crash _ now =>
    exact Deed.QueuesOnly.afterFault r now _
  | notice reason => exact Deed.QueuesOnly.afterCrash r reason
  | _ => exact h

/-- **A step of an execution** keeps what fits, and what it puts into the main queue fits the
lineage of what is executed. -/
theorem fits_step (ht : f.tasks[e.runnable.task]? = some t) (h : e.Fits F l)
    (hEnds : e.EndsWell F u f.now) (hStep : e.step u f = some (f', next)) :
    (∀ e', next = some e' → e'.Fits F (l ++ e.ending f.now)) ∧
      (f'.main = f.main ∨ ∃ r, F l r ∧ f'.main = f.main ++ [r]) := by
  obtain ⟨r, p⟩ := e
  by_cases hFinish : ∃ result, p = .running (.finish result)
  -- the only step at which a lineage grows, and nothing is queued with it
  · obtain ⟨result, rfl⟩ := hFinish
    obtain ⟨rfl, rfl⟩ := Prod.mk.inj (Option.some.inj hStep)
    refine ⟨fun e' he' => ?_, Or.inl rfl⟩
    rw [← Option.some.inj he']
    exact hEnds l result rfl h
  · have hOther : ∀ result, p ≠ .running (.finish result) :=
      fun result hPhase => hFinish ⟨result, hPhase⟩
    have hNone : Execution.ending f.now ⟨r, p⟩ = [] := by
      unfold ending
      split
      · next result hPhase => exact absurd hPhase (hOther result)
      · rfl
    rw [hNone, List.append_nil]
    rcases step_cases ht hStep with ⟨-, rfl, rfl⟩ | ⟨x, rest, more, hDoing, hPerform, rfl⟩ |
      ⟨now, s, p', hNext, rfl, hMarks⟩
    · exact ⟨fun e' he' => absurd he' (by simp), Or.inl rfl⟩
    · obtain rfl : p = .doing (x :: rest) := hDoing
      refine ⟨fun e' he' => ?_, ?_⟩
      · rw [← Option.some.inj he']
        exact Floor.queuesOnly_of_perform hPerform h
      · rcases Floor.main_of_perform hPerform with hSame | ⟨action, input, rfl, hMore⟩
        · exact Or.inl hSame
        · exact Or.inr ⟨_, h action input (by simp), hMore⟩
    · refine ⟨fun e' he' => ?_, Or.inl hMarks.main⟩
      rw [← Option.some.inj he']
      exact fits_next hNext hOther h

end Execution

/-! ## Dispatchers -/

namespace BenchLineages.Fits

variable {k : BenchLineages} {b b' : Bench}

/-- A worker may take what fits the lineage that goes with it. -/
theorem assign (h : k.Fits F b) (w : Nat) {x : Worker Runnable Execution} {l : Lineage}
    (hx : x.Fits F l) :
    BenchLineages.Fits F { k with hand := Function.update k.hand w l } (b.assign w x) where
  queue := h.queue
  loop := h.loop
  hands w' x' hx' := by
    simp only [Dispatcher.assign, List.getElem?_set] at hx'
    -- only the one hand is changed, and its lineage with it
    split at hx'
    · next hSame =>
      subst hSame
      split at hx'
      · rw [← Option.some.inj hx']
        simpa only [Function.update_self] using hx
      · exact absurd hx' (by simp)
    · next hOther =>
      simpa only [Function.update_of_ne (Ne.symm hOther)] using h.hands w' x' hx'

theorem assign_same (h : k.Fits F b) (w : Nat) {x : Worker Runnable Execution}
    (hx : x.Fits F (k.hand w)) : k.Fits F (b.assign w x) := by
  have hAssigned := h.assign w hx
  rwa [Function.update_eq_self] at hAssigned

theorem of_eq (h : k.Fits F b) (hQueue : b'.queue = b.queue) (hLoop : b'.loop = b.loop)
    (hCrew : b'.crew = b.crew) : k.Fits F b' :=
  ⟨hQueue ▸ h.queue, hLoop ▸ h.loop, hCrew ▸ h.hands⟩

/-- **A step of a dispatcher** moves its lineages with its runnables. -/
theorem follow (h : k.Fits F b) {s : DispatcherStep}
    (hStep : Dispatcher.Stepped ({ runnable := · }) b s b') : (k.follow b s).Fits F b' := by
  cases hStep with
  -- the first in the queue goes to the loop
  | @took r rest hLoop hQueue =>
    have hHead := h.queue
    rw [hQueue] at hHead
    cases hLines : k.queue with
    | nil =>
      rw [hLines] at hHead
      cases hHead
    | cons l ls =>
      rw [hLines] at hHead
      cases hHead with
      | cons hr hRest =>
        simp only [BenchLineages.follow, hLines, List.tail_cons, List.headD_cons]
        exact ⟨hRest, hr, h.hands⟩
  | closed hLoop hQueue _ =>
    have hNone := h.queue
    rw [hQueue] at hNone
    have hLines : k.queue = [] := List.forall₂_nil_right_iff.mp hNone
    refine ⟨?_, trivial, h.hands⟩
    simp only [BenchLineages.follow, hLines, Dispatcher.closeLoop, hQueue]
    exact .nil
  -- from the loop it goes to the worker that waits longest
  | @handed r w rest hLoop hPool _ =>
    have hHere : F k.loop r := by
      have hMatching := h.loop
      rwa [hLoop] at hMatching
    have hAssigned := h.assign w (x := .handed r) hHere
    simp only [BenchLineages.follow, hPool]
    exact ⟨hAssigned.queue, trivial, hAssigned.hands⟩
  | offered => exact (h.assign_same _ (x := .waiting) trivial).of_eq rfl rfl rfl
  | retired | left => exact h.assign_same _ (x := .gone) trivial
  -- and the worker keeps it while it executes
  | @picked w r hWorker =>
    have hHere : F (k.hand w) r := h.hands w _ hWorker
    exact (h.assign_same w (x := .busy { runnable := r }) hHere).of_eq rfl rfl rfl

theorem start (k : BenchLineages) (hQueue : k.queue = []) (workers : Nat) :
    k.Fits F (Dispatcher.start workers) where
  queue := by
    rw [hQueue]
    exact .nil
  loop := trivial
  hands w x hx := by
    obtain rfl := (List.mem_replicate.mp (List.mem_of_getElem? hx)).2
    trivial

end BenchLineages.Fits

/-! ## All dispatchers -/

namespace TracksBenches

open Machine

variable {bench : Nat → BenchLineages} {m m' : Machine}

theorem of_eq (h : TracksBenches F bench m) (hBenches : m'.benches = m.benches) :
    TracksBenches F bench m' := by
  refine ⟨?_, ?_⟩
  · rw [hBenches]
    exact h.benches
  · rw [hBenches]
    exact h.spare

/-- A dispatcher may change to one that fits its lineages. -/
theorem set (h : TracksBenches F bench m) {n : Nat} {b b' : Bench} {k : BenchLineages}
    (hb : m.benches[n]? = some b) (hb' : k.Fits F b') :
    TracksBenches F (Function.update bench n k) { m with benches := m.benches.set n b' } := by
  refine ⟨fun n' x hx => ?_, fun n' hx => ?_⟩
  · simp only [List.getElem?_set] at hx
    split at hx
    · next hSame =>
      subst hSame
      split at hx
      · rw [Function.update_self, ← Option.some.inj hx]
        exact hb'
      · exact absurd hx (by simp)
    · next hOther =>
      rw [Function.update_of_ne (Ne.symm hOther)]
      exact h.benches n' x hx
  -- there is no dispatcher with a greater number than before
  · have hBeyond : m.benches.length ≤ n' := by simpa using hx
    have hLt : n < m.benches.length := (List.getElem?_eq_some_iff.mp hb).1
    have hOther : n' ≠ n := by omega
    rw [Function.update_of_ne hOther]
    exact h.spare n' (List.getElem?_eq_none hBeyond)

/-- A dispatcher that is stopped keeps its lineages. -/
theorem retire (h : TracksBenches F bench m) (jobId : String) :
    TracksBenches F bench (m.retire jobId) := by
  unfold Machine.retire
  split
  · exact h
  · next n hn =>
    refine ⟨fun n' x hx => ?_, fun n' hx => ?_⟩
    · simp only [List.getElem?_modify] at hx
      obtain ⟨b, hb, rfl⟩ := Option.map_eq_some_iff.mp hx
      have hHere := h.benches n' b hb
      -- a stopped dispatcher keeps what it has taken in
      split
      · exact hHere.of_eq rfl rfl rfl
      · exact hHere
    · refine h.spare n' ?_
      simpa using hx

/-- A new dispatcher holds nothing, so any lineages fit. -/
theorem engage (h : TracksBenches F bench m) (jobId : String) (workers : Nat) :
    TracksBenches F bench (m.engage jobId workers) := by
  refine ⟨fun n x hx => ?_, fun n hx => ?_⟩
  · simp only [Machine.engage, List.getElem?_append] at hx
    split at hx
    · exact h.benches n x hx
    -- the new dispatcher has the first spare number, whose lineages are empty
    · next hNew =>
      rw [List.getElem?_singleton] at hx
      split at hx
      · rw [← Option.some.inj hx]
        exact .start _ (h.spare n (List.getElem?_eq_none (Nat.le_of_not_lt hNew))) workers
      · exact absurd hx (by simp)
  · refine h.spare n ?_
    simp only [Machine.engage, List.getElem?_eq_none_iff, List.length_append] at hx ⊢
    omega

/-- A change of a job moves no runnable. -/
theorem handleChange (h : TracksBenches F bench m) (u : Setup) (c : JobChange) :
    TracksBenches F bench (m.handleChange u c) :=
  handleChange_induction (fun _ jobId h => h.retire jobId)
    (fun _ jobId workers h => h.engage jobId workers) (fun _ _ h => h.of_eq rfl) u c h

theorem stopDispatchers (h : TracksBenches F bench m) : TracksBenches F bench m.stopDispatchers :=
  stopDispatchers_induction (fun _ jobId h => h.retire jobId) h

/-- A runnable that is routed comes to the end of the queue of one dispatcher, with its lineage. -/
theorem route (h : TracksBenches F bench m) (hStaffed : m.Staffed) (u : Setup) {r : Runnable}
    {l : Lineage} (hr : F l r) :
    TracksBenches F (fun n => { bench n with
      queue := grown (m.queueAt n) ((m.route u r).1.queueAt n) l (bench n).queue })
      (m.route u r).1 := by
  rcases hStaffed.route_cases u r with ⟨-, hAway⟩ | ⟨j, b, -, hb, hRouted⟩
  · rw [hAway]
    simpa only [grown_self] using h
  · rw [hRouted]
    -- the dispatcher may be a new one, with an empty queue
    have hFor : TracksBenches F bench (m.benchFor u j).1 := by
      unfold Machine.benchFor
      split
      · exact h
      · exact h.engage _ _
    have hQueues := queueAt_benchFor u m j
    generalize m.benchFor u j = found at hb hFor hQueues ⊢
    obtain ⟨m₁, n⟩ := found
    dsimp only at hb hFor hQueues ⊢
    have hHere := hFor.benches n b hb
    have hLonger : BenchLineages.Fits F { bench n with queue := (bench n).queue ++ [l] }
        { b with queue := b.queue ++ [r] } :=
      ⟨List.rel_append hHere.queue (.cons hr .nil), hHere.loop, hHere.hands⟩
    have hSet := hFor.set hb hLonger
    -- and the lineages are those of the queues before, one more where the runnable is
    convert hSet using 2 with n'
    have hLt : n < m₁.benches.length := (List.getElem?_eq_some_iff.mp hb).1
    by_cases hSame : n' = n
    · subst hSame
      have hBefore : m.queueAt n' = b.queue := by rw [← hQueues, queueAt, hb, Option.elim_some]
      rw [hBefore, Function.update_self]
      simp [queueAt, hLt, grown]
    · rw [Function.update_of_ne hSame]
      have hKept : Machine.queueAt { m₁ with
          benches := m₁.benches.set n { b with queue := b.queue ++ [r] } } n' = m.queueAt n' := by
        rw [← hQueues, queueAt, queueAt, List.getElem?_set_ne (Ne.symm hSame)]
      rw [hKept, grown_self]

end TracksBenches

/-! ## Nothing known of the past -/

/-- Lineages of which nothing is known fit what a machine holds, if they fit all that waits and all
that executions may still queue. -/
theorem tracks_blank {m : Machine} (hWaiting : ∀ r, .waiting r ∈ m.duties → F [] r)
    (hRunning : ∀ e, .running e ∈ m.duties → ∀ action input,
      F [] { e.runnable with action, input }) :
    Tracks F (.blank m) m := by
  -- a queue is tracked by as many empty lineages
  have hQueue : ∀ queue : List Runnable, (∀ r ∈ queue, .waiting r ∈ m.duties) →
      List.Forall₂ F (queue.map fun _ => []) queue := by
    intro queue hMem
    exact List.forall₂_map_left_iff.mpr (List.forall₂_same.mpr fun r hr => hWaiting r (hMem r hr))
  refine ⟨hQueue _ fun r hr => Machine.mem_duties_of_place (.main hr), fun n b hb => ?_, fun n hn => ?_⟩
  · have hBench := List.mem_of_getElem? hb
    have hHere : m.queueAt n = b.queue := by rw [Machine.queueAt, hb, Option.elim_some]
    -- whatever a dispatcher holds is a duty of the machine
    refine ⟨?_, ?_, fun w x hx => ?_⟩
    · simp only [Genealogy.blank, hHere]
      exact hQueue _ fun r hr => Machine.mem_duties_of_place (.queue hBench hr)
    · cases hLoop : b.loop with
      | matching r => exact hWaiting r (Machine.mem_duties_of_place (.loop hBench hLoop))
      | _ => trivial
    · have hCrew := List.mem_of_getElem? hx
      cases x with
      | handed r => exact hWaiting r (Machine.mem_duties_of_place (.handed hBench hCrew))
      | busy e =>
        have hQueues := hRunning e (Machine.mem_duties_of_place (.busy hBench hCrew))
        simp only [Worker.Fits, Execution.Fits]
        split
        · exact fun action input _ => hQueues action input
        · exact hQueues e.runnable.action e.runnable.input
      | _ => trivial
  · simp only [Genealogy.blank, Machine.queueAt, hn, Option.elim_none, List.map_nil]

/-! ## Every step -/

namespace Machine

/-- What a step may newly queue fits: with no past, what errands queue and what is submitted; and
what follows from a run that ends, with that run as the last of its past. -/
structure Admits (F : Lineage → Runnable → Prop) (u : Setup) (m : Machine) (s : MachineStep) :
    Prop where
  errands : ∀ e ∈ m.errands,
    Deed.QueuesOnly (fun action input => F [] { action, task := e.task, input }) e.deeds
  submits : ∀ j action input, s = .submit j action input →
    F [] { action, task := m.floor.tasks.length, input }
  ends    : ∀ n w e, s = .work n w → m.execution? n w = some e → e.EndsWell F u m.floor.now

/-- What a step of an errand puts into the main queue. -/
theorem main_of_runErrand {u : Setup} {f f' : Floor} {e e' : Errand}
    (h : runErrand u f e = some (f', e'))
    (hDeeds : Deed.QueuesOnly (fun action input => F [] { action, task := e.task, input }) e.deeds) :
    f'.main = f.main ∨ ∃ r, F [] r ∧ f'.main = f.main ++ [r] := by
  obtain ⟨i, deeds, launches⟩ := e
  cases deeds with
  | cons x rest =>
    rcases hPerform : f.perform i x with ⟨f₁, more⟩
    simp only [runErrand, hPerform] at h
    obtain ⟨rfl, -⟩ := Prod.mk.inj (Option.some.inj h)
    rcases Floor.main_of_perform hPerform with hSame | ⟨action, input, rfl, hMore⟩
    · exact Or.inl hSame
    · exact Or.inr ⟨_, hDeeds action input (by simp), hMore⟩
  | nil =>
    cases launches with
    | nil => exact absurd h (by simp [runErrand])
    -- a new task has its deeds before it
    | cons l launches =>
      obtain ⟨rfl, -⟩ := Prod.mk.inj (Option.some.inj h)
      exact Or.inl rfl

end Machine

namespace Tracks

open Machine

variable {u : Setup} {g : Genealogy} {m m' : Machine} {s : MachineStep}

theorem of_eq (h : Tracks F g m) (hMain : m'.floor.main = m.floor.main)
    (hBenches : m'.benches = m.benches) : Tracks F g m' :=
  ⟨hMain ▸ h.main, h.benches.of_eq hBenches⟩

/-- A runnable that is newly queued gets the lineage it comes from. -/
theorem grow (h : Tracks F g m) {l : Lineage}
    (hNew : m'.floor.main = m.floor.main ∨ ∃ r, F l r ∧ m'.floor.main = m.floor.main ++ [r])
    (hBenches : m'.benches = m.benches) :
    Tracks F { g with main := grown m.floor.main m'.floor.main l g.main } m' :=
  ⟨forall₂_grown h.main hNew, h.benches.of_eq hBenches⟩

/-- Where nothing is queued every lineage stays. -/
theorem stay (h : Tracks F g m) (l : Lineage) (hMain : m'.floor.main = m.floor.main)
    (hBenches : m'.benches = m.benches) :
    Tracks F { g with main := grown m.floor.main m'.floor.main l g.main } m' :=
  h.grow (Or.inl hMain) hBenches

/-- A listener may queue the roots of a task it starts. -/
theorem listen (h : Tracks F g m) {c : Channel} (hAdmits : m.Admits F u (.listen c))
    (hStep : m.listen u c = some m') : Tracks F (g.follow m m' (.listen c)) m' := by
  obtain ⟨_, hHeeds⟩ := exists_heeds hStep
  cases hHeeds with
  -- only a change of a job touches the dispatchers
  | @change t x =>
    have hFloor := (handleChange_keeps u { m with changes := t } x).2
    have hTaken : TracksBenches F g.bench { m with changes := t } := h.benches.of_eq rfl
    exact ⟨forall₂_grown h.main (Or.inl (by rw [hFloor])), hTaken.handleChange u x⟩
  -- only with a deed of an errand something may be queued
  | @errand e _ _ hEar hRun =>
    have hDeeds := hAdmits.errands e (mem_errands.mpr (Or.inl ⟨c, hEar⟩))
    exact h.grow (main_of_runErrand hRun hDeeds) rfl
  | tree | attributes | trigger | known | unknown | found | missing | load | done =>
    exact h.stay [] rfl rfl

/-- A caller queues what its task asks for. -/
theorem call (h : Tracks F g m) {n : Nat} (hAdmits : m.Admits F u (.call n))
    (hStep : m.call u n = some m') : Tracks F (g.follow m m' (.call n)) m' := by
  obtain ⟨e, hCaller, ⟨f, e', hRun, rfl⟩ | ⟨-, rfl⟩⟩ := call_cases hStep
  · have hMem : e ∈ m.errands := mem_errands.mpr (Or.inr (Or.inr (List.mem_of_getElem? hCaller)))
    exact h.grow (main_of_runErrand hRun (hAdmits.errands e hMem)) rfl
  · exact h.stay [] rfl rfl

/-- The router moves the first of the main queue, with its lineage, to a dispatcher. -/
theorem stepRouter (h : Tracks F g m) (hStaffed : m.Staffed) (hAdmits : m.Admits F u .route)
    (hStep : m.stepRouter u = some m') : Tracks F (g.follow m m' .route) m' := by
  rcases stepRouter_cases hStep with ⟨r, rest, m₁, deeds, hWaiting, hMain, hRoute, hAfter⟩ |
    ⟨e, hBusy, hErrand⟩
  · obtain ⟨l, ls, hr, hRest, hLines⟩ : ∃ l ls, F l r ∧ List.Forall₂ F ls rest ∧
        g.main = l :: ls := by
      have hAll := h.main
      rw [hMain] at hAll
      exact List.forall₂_cons_right_iff.mp hAll
    have hTaken : (m.onFloor { m.floor with main := rest }).Staffed := hStaffed.of_eq rfl rfl
    have hBenches : TracksBenches F g.bench (m.onFloor { m.floor with main := rest }) :=
      h.benches.of_eq rfl
    have hRouted := hBenches.route hTaken u hr
    have hFloor : ((m.onFloor { m.floor with main := rest }).route u r).1.floor =
        { m.floor with main := rest } := by
      obtain ⟨service, benches, hKeeps⟩ := exists_route u (m.onFloor { m.floor with main := rest }) r
      rw [hKeeps]
      rfl
    rw [hRoute] at hRouted hFloor
    -- with deeds for the runnable the router is busy, and that is all that differs
    have hSame : m'.benches = m₁.benches ∧ m'.floor = m₁.floor := by
      rw [hAfter]
      split <;> exact ⟨rfl, rfl⟩
    have hQueues : ∀ n, m'.queueAt n = m₁.queueAt n := fun n => by rw [queueAt, hSame.1, queueAt]
    simp only [Genealogy.follow, hWaiting, hLines, List.tail_cons, List.headD_cons, hQueues]
    refine ⟨?_, hRouted.of_eq hSame.1⟩
    rw [hSame.2, hFloor]
    exact hRest
  · simp only [Genealogy.follow, hBusy]
    rcases hErrand with ⟨f, e', hRun, rfl⟩ | ⟨-, rfl⟩
    · have hDeeds := hAdmits.errands e (mem_errands.mpr (Or.inr (Or.inl hBusy)))
      exact h.grow (main_of_runErrand hRun hDeeds) rfl
    · exact h.stay [] rfl rfl

/-- A submission begins to queue the action it is for. -/
theorem submit (h : Tracks F g m) (hStaffed : m.Staffed) {j : Job} {a : Action} {input : Message}
    (hAdmits : m.Admits F u (.submit j a input)) :
    Tracks F (g.follow m (m.submit u j a input) (.submit j a input)) (m.submit u j a input) := by
  let m₀ := m.onFloor ((m.floor.addTask u j (.aside [])).mark m.floor.tasks.length .retain)
  let r : Runnable := { action := a, task := m.floor.tasks.length, input }
  have hAdded : TracksBenches F g.bench m₀ := h.benches.of_eq rfl
  have hAddedStaffed : m₀.Staffed := hStaffed.of_eq rfl rfl
  have hRouted := hAdded.route hAddedStaffed u (hAdmits.submits j a input rfl)
  -- what is submitted goes to a dispatcher, past the main queue
  have hMain : (m₀.route u r).1.floor.main = m.floor.main := by
    obtain ⟨service, benches, hKeeps⟩ := exists_route u m₀ r
    rw [hKeeps]
    simp only [m₀, onFloor, mark_addTask]
  rcases hRoute : m₀.route u r with ⟨m₁, deeds⟩
  rw [hRoute] at hMain
  rw [show m₀.route u { action := a, task := m.floor.tasks.length, input } = (m₁, deeds) from
    hRoute] at hRouted
  have hSame : (m.submit u j a input).benches = m₁.benches ∧
      (m.submit u j a input).floor = m₁.floor := by
    rw [submit_eq hRoute]
    split <;> exact ⟨rfl, rfl⟩
  have hQueues : ∀ n, (m.submit u j a input).queueAt n = m₁.queueAt n :=
    fun n => by rw [queueAt, hSame.1, queueAt]
  simp only [Genealogy.follow, hQueues]
  refine ⟨?_, hRouted.of_eq hSame.1⟩
  rw [hSame.2, hMain]
  exact h.main

/-- A worker may queue what follows on its run, whose lineage is longer by that run. -/
theorem work (h : Tracks F g m) (hSound : m.Sound) {n w : Nat}
    (hAdmits : m.Admits F u (.work n w)) (hStep : m.work u n w = some m') :
    Tracks F (g.follow m m' (.work n w)) m' := by
  obtain ⟨b, e, f, next, hb, he, hMoved, rfl⟩ := work_cases hStep
  have hCrew := Dispatcher.crew_of_execution? he
  have hExecution : m.execution? n w = some e := by rw [execution?, hb, Option.bind_some, he]
  obtain ⟨t, ht⟩ := hSound.exists_task_of_execution? hExecution
  have hHere := h.benches.benches n b hb
  have hFits : e.Fits F ((g.bench n).hand w) := hHere.hands w _ hCrew
  obtain ⟨hNext, hMain⟩ := Execution.fits_step ht hFits (hAdmits.ends n w e rfl hExecution) hMoved
  have hLine : (g.bench n).hand w ++ m.endings (.work n w) =
      (g.bench n).hand w ++ e.ending m.floor.now := by
    rw [endings, hExecution, Option.elim_some]
  -- the worker goes on, or is free again
  have hCarried : BenchLineages.Fits F { g.bench n with
      hand := Function.update (g.bench n).hand w
        ((g.bench n).hand w ++ m.endings (.work n w)) } (b.carry w next) := by
    rw [hLine]
    cases next with
    | some e' => exact hHere.assign w (x := .busy e') (hNext e' rfl)
    | none => exact (hHere.assign w (x := .offering) trivial).of_eq rfl rfl rfl
  exact ⟨forall₂_grown h.main hMain, (h.benches.set hb hCarried).of_eq rfl⟩

/-- **Every step** moves the lineages with the runnables, and what it queues gets the lineage of
what it comes from. -/
theorem step (h : Tracks F g m) (hSound : m.Sound) (hAdmits : m.Admits F u s)
    (hStep : m.step u s = some m') : Tracks F (g.follow m m' s) m' := by
  cases s with
  | time | store | launch =>
    obtain rfl := Option.some.inj hStep
    exact h.of_eq rfl rfl
  | saveJob | removeJob | saveTask =>
    obtain rfl := Option.some.inj hStep
    exact h.of_eq (Execution.telling_eq _ _).2.1 rfl
  | publish post =>
    obtain rfl := Option.some.inj hStep
    cases post with
    | node onAttributes _ => cases onAttributes <;> exact h.of_eq rfl rfl
    | trigger | job => exact h.of_eq rfl rfl
  | announce k =>
    obtain ⟨a, _, _, -, -, rfl⟩ := announce_cases hStep
    cases a <;> exact h.of_eq rfl rfl
  | submit j a input =>
    obtain rfl := Option.some.inj hStep
    exact h.submit hSound.staffed hAdmits
  | call n => exact h.call hAdmits hStep
  | listen c => exact h.listen hAdmits hStep
  | route => exact h.stepRouter hSound.staffed hAdmits hStep
  | dispatch n s =>
    obtain ⟨b, b', hb, hStepped, rfl, -⟩ := hSound.staffed.stepBench hStep
    have hFollows := (h.benches.benches n b hb).follow hStepped
    simp only [Genealogy.follow, hb, Option.elim_some]
    exact ⟨h.main, h.benches.set hb hFollows⟩
  | work n w => exact h.work hSound hAdmits hStep
  | write s =>
    obtain ⟨w, put, -, ⟨t, -, -, rfl⟩ | ⟨-, rfl⟩⟩ := write_cases hStep
    · exact h.of_eq (Execution.telling_eq _ _).2.1 rfl
    · exact h.of_eq rfl rfl
  | silence c =>
    obtain ⟨-, rfl⟩ := silence_cases hStep
    cases c <;> exact h.of_eq rfl rfl
  -- the main queue goes with the router
  | endRouter =>
    obtain ⟨-, rfl⟩ := endRouter_cases hStep
    exact ⟨.nil, h.benches.of_eq rfl⟩
  | stopDispatchers =>
    obtain rfl := Option.some.inj hStep
    have hFloor := (stopDispatchers_keeps m).2
    exact ⟨hFloor ▸ h.main, h.benches.stopDispatchers⟩

end Tracks

end Taskyard
