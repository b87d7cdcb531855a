import Taskyard.Proofs.Job.Expansion
import Taskyard.Proofs.Scheduler.Evaluation
import Taskyard.Proofs.Scheduler.Genealogy

/-!
# Scheduler — where the outputs of a message come from

On its way through a task a message is copied for every node and user that an action selects, loses
nodes and users to filters, and gets one more output with every run. Children of many parents share
the main queue, in whatever order these are done. Still the outputs of a runnable are those that its
own ancestors appended, one each and in their order, and never those of a sibling or of a cousin.

Main definitions and results:

* `Inherits` — what a runnable has from its ancestors, and `Inherits.child` for one run more.
* `Machine.Appends` — what is asked of the runs of a task.
* `Machine.queued_inherits` — every runnable of the task inherits from its lineage.
-/

namespace Taskyard

/-! ## What is queued -/

/-- The root actions are queued with messages of the kin of the first one. -/
theorem queuesOnly_rootDeeds (b : Backend) (buffer : Nat) (root : Message) (actions : List Action) :
    Deed.QueuesOnly (fun action input => action ∈ actions ∧ input.Kin root)
      (rootDeeds b buffer root actions) := by
  intro action input hMem
  -- whatever else there is to do, what is queued is one of the inputs
  have hInput : (action, input) ∈ rootInputs b buffer root actions := by
    simp only [rootDeeds, List.mem_append, List.mem_map, reduceCtorEq, and_false, exists_false,
      false_or] at hMem
    split at hMem
    · split at hMem <;> simp at hMem
    · simpa using hMem
  obtain ⟨a, ha, hMem⟩ := List.mem_flatMap.mp hInput
  split at hMem
  · next inputs hExpand =>
    obtain ⟨m, hm, hEq⟩ := List.mem_map.mp hMem
    obtain ⟨rfl, rfl⟩ := Prod.mk.inj hEq
    exact ⟨ha, Action.expand_kin hExpand hm⟩
  · exact absurd hMem (by simp)

/-- What follows from an output that tells of no failure are the chained actions, with messages of
its kin; from any other nothing follows. -/
theorem Runnable.queuesOnly_afterOutput (r : Runnable) (b : Backend) (buffer : Nat)
    (output : Message) :
    Deed.QueuesOnly (fun action input => failureOf output = none ∧ action ∈ r.action.chained ∧
      input.Kin output) (r.afterOutput b buffer output) := by
  intro action input hMem
  simp only [afterOutput, List.mem_cons, reduceCtorEq, false_or] at hMem
  split at hMem
  -- after an output that failed nothing is queued
  · simp at hMem
  · next hSuccess =>
    obtain ⟨c, hc, hMem⟩ : ∃ c ∈ r.action.chained,
        .queue action input ∈ childDeeds c (c.expand b buffer output) := by
      simpa [descend] using hMem
    cases hExpand : c.expand b buffer output with
    | error e =>
      rw [hExpand] at hMem
      simp [childDeeds] at hMem
    | ok inputs =>
      rw [hExpand] at hMem
      obtain ⟨m, hm, rfl, rfl⟩ : ∃ m ∈ inputs, action = c ∧ input = m := by
        simpa [childDeeds] using hMem
      exact ⟨hSuccess, hc, Action.expand_kin hExpand hm⟩

/-! ## Inheritance -/

/-- A path in trees of actions: it starts with a root, and each action on it is chained to the one
before. -/
structure Action.Path (roots path : List Action) : Prop where
  root  : ∀ a, path.head? = some a → a ∈ roots
  steps : path.IsChain fun a c => c ∈ a.chained

/-- A chained action is one step further down. -/
theorem Action.Path.concat {roots path : List Action} {a c : Action}
    (h : Path roots (path ++ [a])) (hc : c ∈ a.chained) : Path roots (path ++ [a] ++ [c]) where
  root x hx := h.root x (by simpa [List.head?_append] using hx)
  steps := by
    refine h.steps.append (.singleton c) fun x hx y hy => ?_
    obtain rfl : a = x := by simpa using hx
    obtain rfl : c = y := by simpa using hy
    exact hc

/-- What a runnable has from its ancestors, in a task that an event started for a job, where these
runs have ended. Its action is as deep in the tree as the lineage is long, and it has the event and
one output for each ancestor, a success: that which the run of the ancestor appended. -/
structure Inherits (j : Job) (ev : Event) (ran : Lineage) (l : Lineage) (r : Runnable) : Prop where
  path      : Action.Path j.actions (l.map (·.1.action) ++ [r.action])
  event     : r.input.event = some ev
  outputs   : r.input.outputs = l.map (·.2)
  success   : ∀ o ∈ r.input.outputs, o.success = true
  runs      : ∀ x ∈ l, x ∈ ran
  -- the same goes for each ancestor, with the ancestors before it
  ancestors : ∀ k x, l[k]? = some x →
    x.1.input.event = some ev ∧ x.1.input.outputs = (l.take k).map (·.2)

namespace Inherits

variable {j : Job} {ev : Event} {ran ran' l : Lineage} {p r : Runnable} {o : Output}

/-- What was inherited stays so when more has run. -/
theorem mono (h : Inherits j ev ran l r) (hMore : ∀ x ∈ ran, x ∈ ran') : Inherits j ev ran' l r :=
  { h with runs := fun x hx => hMore x (h.runs x hx) }

/-- A root is queued with the event and without outputs, and has nothing from anyone. -/
theorem root (hAction : r.action ∈ j.actions) (hInput : r.input.Kin (.ofEvent ev)) :
    Inherits j ev ran [] r where
  path := ⟨fun a ha => Option.some.inj ha ▸ hAction, .singleton r.action⟩
  event := hInput.1
  outputs := hInput.2
  success o ho := by
    rw [hInput.2] at ho
    exact absurd ho (by simp [Message.ofEvent])
  runs x hx := absurd hx (by simp)
  ancestors k x hx := absurd hx (by simp)

/-- **A child has from its ancestors** what its parent has from its own, and the output that the run
of its parent appended. -/
theorem child (h : Inherits j ev ran l p) (hRan : (p, o) ∈ ran) (hSuccess : o.success = true)
    (hAction : r.action ∈ p.action.chained) (hInput : r.input.Kin (p.input.withOutput o)) :
    Inherits j ev ran (l ++ [(p, o)]) r where
  path := by
    simp only [List.map_append, List.map_cons, List.map_nil]
    exact h.path.concat hAction
  event := hInput.1.trans h.event
  outputs := by
    rw [hInput.2, Message.withOutput, h.outputs, List.map_append, List.map_cons, List.map_nil]
  success x hx := by
    rw [hInput.2, Message.withOutput] at hx
    rcases List.mem_append.mp hx with hx | hx
    · exact h.success x hx
    · rw [List.mem_singleton.mp hx]
      exact hSuccess
  runs x hx := by
    rcases List.mem_append.mp hx with hx | hx
    · exact h.runs x hx
    · rw [List.mem_singleton.mp hx]
      exact hRan
  ancestors k x hx := by
    rw [List.getElem?_append] at hx
    split at hx
    · next hLt =>
      rw [List.take_append_of_le_length (Nat.le_of_lt hLt)]
      exact h.ancestors k x hx
    · next hGe =>
      -- the last ancestor is the parent itself, and all others are before it
      rw [List.getElem?_singleton] at hx
      split at hx
      · obtain rfl := Option.some.inj hx
        obtain rfl : k = l.length := by omega
        rw [List.take_left]
        exact ⟨h.event, h.outputs⟩
      · exact absurd hx (by simp)

end Inherits

/-! ## The runs of a task -/

/-- A run that is about to end with a message fails, or appends one output to what it was given; it
may give other nodes and users, but no other event. -/
def Execution.Appends (now : Int64) (e : Execution) : Prop :=
  ∀ result, e.phase = .running (.finish result) → Runnable.failureOf (result now) = none →
    ∃ o, (result now).Kin (e.runnable.input.withOutput o)

/-- A runnable inherits from a lineage if it is of this task; of others nothing is said. -/
def Inherits.In (i : Nat) (j : Job) (ev : Event) (ran l : Lineage) (r : Runnable) : Prop :=
  r.task = i → Inherits j ev ran l r

/-- What follows from a run that appends one output inherits from it. -/
theorem Execution.endsWell {i : Nat} {j : Job} {ev : Event} {ran : Lineage} {u : Setup}
    {now : Int64} {e : Execution} (hAppends : e.runnable.task = i → e.Appends now)
    (hRan : ∀ x ∈ e.ending now, x ∈ ran) : e.EndsWell (Inherits.In i j ev ran) u now := by
  intro l result hPhase hParent action input hMem hTask
  obtain ⟨hNoFailure, hAction, hInput⟩ := e.runnable.queuesOnly_afterOutput _ _ _ action input hMem
  obtain ⟨o, hOutput⟩ := hAppends hTask result hPhase hNoFailure
  have hLast : (result now).lastOutput = some o := by
    rw [Message.lastOutput, hOutput.2, Message.withOutput, List.getLast?_concat]
  have hSuccess : o.success = true := by
    simpa [Runnable.failureOf, hLast, Option.filter] using hNoFailure
  have hEnding : e.ending now = [(e.runnable, o)] := by
    simp only [Execution.ending, hPhase, hLast, Option.toList_some, List.map_cons, List.map_nil]
  rw [hEnding] at hRan ⊢
  exact .child (hParent hTask) (hRan _ (List.mem_singleton_self _)) hSuccess hAction
    (hInput.trans hOutput)

namespace Machine

variable {u : Setup} {m m' : Machine} {s : MachineStep} {i : Nat} {j : Job} {ev : Event}

/-- A step that may end a run of a task lets the run append one output, unless it fails. -/
def Appends (i : Nat) (m : Machine) : MachineStep → Prop
  | .work n w => ∀ e, m.execution? n w = some e → e.runnable.task = i → e.Appends m.floor.now
  | _ => True

/-- The errands for a task queue the root actions only, with what the event gives. -/
def QueuesRoots (i : Nat) (j : Job) (ev : Event) (m : Machine) : Prop :=
  ∀ ds, .errand i ds ∈ m.duties →
    Deed.QueuesOnly (fun action input => action ∈ j.actions ∧ input.Kin (.ofEvent ev)) ds

/-- An errand that goes on is the same one with fewer deeds. -/
theorem deeds_of_errand_mem_resume {d : Duty} {ds ds' : List Deed}
    (h : .errand i ds' ∈ d.resume ds) : ds' = ds ∧ ∃ old, d = .errand i old := by
  cases d with
  | waiting r => exact absurd h (Multiset.notMem_zero _)
  | running e => exact absurd (Multiset.mem_singleton.mp h) (by simp)
  | errand i' old =>
    obtain ⟨rfl, rfl⟩ := Duty.errand.inj (Duty.mem_ofDeeds.mp h).2
    exact ⟨rfl, old, rfl⟩

/-- A turn leaves of an errand what it had left to queue. -/
theorem Turn.queuesOnly {t : LiveTask} {d : Duty} {begun : Option Runnable} {record : Task}
    {new : Multiset Duty} {P : Action → Message → Prop} (h : Turn u m t d begun record new)
    (hOld : ∀ ds, d = .errand i ds → Deed.QueuesOnly P ds) {ds : List Deed}
    (hNew : .errand i ds ∈ new) : Deed.QueuesOnly P ds := by
  -- a duty with deeds that comes from an errand is that errand, so its deeds are known
  have hDeeds : ∀ {ds₀ old : List Deed}, d.deeds = some ds₀ → d = .errand i old →
      Deed.QueuesOnly P ds₀ := by
    rintro ds₀ old hDeeds rfl
    obtain rfl := Option.some.inj hDeeds
    exact hOld old rfl
  cases h with
  | pick | advance => exact absurd (Multiset.mem_singleton.mp hNew) (by simp)
  | away r =>
    obtain ⟨-, rfl⟩ := Duty.errand.inj (Duty.mem_ofDeeds.mp hNew).2
    exact .turnAway _
  | ended => exact absurd hNew (Multiset.notMem_zero _)
  | mark d now hFirst =>
    obtain ⟨rfl, old, hErrand⟩ := deeds_of_errand_mem_resume hNew
    exact (hDeeds hFirst hErrand).tail
  | queue d hFirst =>
    rcases Multiset.mem_cons.mp hNew with hWaiting | hNew
    · exact absurd hWaiting (by simp)
    · obtain ⟨rfl, old, hErrand⟩ := deeds_of_errand_mem_resume hNew
      exact (hDeeds hFirst hErrand).tail
  | refuse d hFirst =>
    obtain ⟨rfl, old, hErrand⟩ := deeds_of_errand_mem_resume hNew
    exact (hDeeds hFirst hErrand).tail.refused

/-- No step gives the errands for a task that was started before anything else to queue. -/
theorem QueuesRoots.step (h : QueuesRoots i j ev m) (hSound : m.Sound)
    (hKnown : i < m.floor.tasks.length) (hStep : m.step u s = some m') :
    QueuesRoots i j ev m' := by
  intro ds hMem
  rcases step_cases hSound hStep with ⟨hMove, -⟩ | ⟨-, hEnds⟩
  · obtain ⟨t', ht', -⟩ :=
      exists_task_of_step hSound hStep (List.getElem?_eq_getElem hKnown)
    have hOf : .errand i ds ∈ m'.dutiesOf i := Multiset.mem_filter.mpr ⟨hMem, rfl⟩
    -- nothing is done for the task, or one turn is taken at a duty of it
    cases hMove.atTask hSound ht' with
    | idle _ _ _ hDuties _ =>
      rw [hDuties] at hOf
      exact h ds (Multiset.mem_filter.mp hOf).1
    | @turn t d old new _ _ _ hDuties hTurn hDuties' =>
      have hHere : ∀ x ∈ d ::ₘ old, x ∈ m.duties := fun x hx =>
        (Multiset.mem_filter.mp (hDuties ▸ hx)).1
      rw [hDuties'] at hOf
      rcases Multiset.mem_add.mp hOf with hNew | hOld
      · refine hTurn.queuesOnly (fun ds' hd => h ds' ?_) hNew
        exact hHere _ (hd ▸ Multiset.mem_cons_self d old)
      · exact h ds (hHere _ (Multiset.mem_cons_of_mem hOld))
    | birth hNew => exact absurd hNew (Nat.ne_of_lt hKnown)
  · exact h ds (hEnds.duties ▸ Multiset.mem_add.mpr (Or.inr hMem))

/-- A task of a scheduler, started by an event for a job, all runnables of which inherit from their
lineages. -/
structure Traced (i : Nat) (j : Job) (ev : Event) (ran : Lineage) (g : Genealogy) (m : Machine) :
    Prop where
  sound  : m.Sound
  known  : i < m.floor.tasks.length
  roots  : QueuesRoots i j ev m
  tracks : Tracks (Inherits.In i j ev ran) g m

namespace Traced

variable {ran : Lineage} {g : Genealogy}

/-- What a step may newly queue for the task inherits from where it comes from. -/
theorem admits (h : Traced i j ev ran g m) (hAppends : m.Appends i s)
    (hRan : ∀ x ∈ m.endings s, x ∈ ran) : m.Admits (Inherits.In i j ev ran) u s where
  errands e he action input hMem hTask := by
    obtain rfl : e.task = i := hTask
    have hDuty : .errand e.task e.deeds ∈ m.duties :=
      mem_duties_of_errands he (Duty.mem_ofDeeds.mpr ⟨List.ne_nil_of_mem hMem, rfl⟩)
    obtain ⟨hAction, hInput⟩ := h.roots _ hDuty action input hMem
    exact .root hAction hInput
  -- a runnable that is submitted is of a task of its own
  submits j' action input _ hTask := absurd hTask (Nat.ne_of_gt h.known)
  ends n w e hs he := by
    subst hs
    refine Execution.endsWell (hAppends e he) fun x hx => hRan x ?_
    rwa [endings, he, Option.elim_some]

/-- **Every step** keeps all runnables of the task with their ancestors. -/
theorem step (h : Traced i j ev ran g m) (hAppends : m.Appends i s)
    (hStep : m.step u s = some m') :
    Traced i j ev (ran ++ m.endings s) (g.follow m m' s) m' := by
  have hMore : Tracks (Inherits.In i j ev (ran ++ m.endings s)) g m :=
    h.tracks.imp fun l r hIn hTask => (hIn hTask).mono fun x hx => List.mem_append_left _ hx
  have hHere : Traced i j ev (ran ++ m.endings s) g m := ⟨h.sound, h.known, h.roots, hMore⟩
  have hAdmits : m.Admits (Inherits.In i j ev (ran ++ m.endings s)) u s :=
    hHere.admits hAppends fun x hx => List.mem_append_right _ hx
  refine ⟨h.sound.step hStep, ?_, h.roots.step h.sound h.known hStep,
    hMore.step h.sound hAdmits hStep⟩
  obtain ⟨t', ht', -⟩ := exists_task_of_step h.sound hStep (List.getElem?_eq_getElem h.known)
  exact (List.getElem?_eq_some_iff.mp ht').1

/-- A run keeps all runnables of the task with their ancestors. -/
theorem course {ss : List MachineStep} (h : Traced i j ev ran g m)
    (hRun : Course u (Appends i) m ss m') :
    Traced i j ev (ran ++ m.trace u endings ss) (m.genealogy u g ss) m' := by
  induction hRun generalizing ran g with
  | rest m =>
    rw [trace, List.append_nil]
    exact h
  | step hAppends hStep _ ih =>
    rw [trace_cons hStep, ← List.append_assoc, genealogy_cons hStep]
    exact ih (h.step hAppends hStep)

end Traced

/-- A task that was just started has nothing but the deeds of its start. -/
theorem traced_of_starts (hSound : m.Sound) (hStarts : m.starts s = some (j, ev))
    (hStep : m.step u s = some m') :
    Traced m.floor.tasks.length j ev [] (.blank m') m' := by
  have hMove : Move u m s m' := by
    rcases step_cases hSound hStep with ⟨hMove, -⟩ | ⟨rfl, -⟩
    · exact hMove
    · exact absurd hStarts (by simp [starts])
  obtain ⟨t, ht, -, -, hDuties⟩ := hMove.started hSound hStarts
  have hOnly : ∀ d ∈ m'.duties, d.task = m.floor.tasks.length → d = .errand m.floor.tasks.length
      (rootDeeds u.site.backend u.selectionBuffer (.ofEvent ev) j.actions) := by
    intro d hd hTask
    have hOf : d ∈ m'.dutiesOf m.floor.tasks.length := Multiset.mem_filter.mpr ⟨hd, hTask⟩
    rw [hDuties] at hOf
    exact (Duty.mem_ofDeeds.mp hOf).2
  refine ⟨hSound.step hStep, (List.getElem?_eq_some_iff.mp ht).1, fun ds hd => ?_,
    tracks_blank (fun r hr hTask => ?_) fun e he _ _ hTask => ?_⟩
  · obtain ⟨-, rfl⟩ := Duty.errand.inj (hOnly _ hd rfl)
    exact queuesOnly_rootDeeds _ _ _ _
  -- neither a waiting runnable nor an execution is such an errand
  · exact absurd (hOnly _ hr hTask) (by simp)
  · exact absurd (hOnly _ he hTask) (by simp)

/-- **Every runnable of a task inherits from its ancestors.** Let `launch` start a task at any time,
for any event, and let the scheduler go on in any order of its steps. If every run of the task fails
or appends one output to what it was given, as `with_output` does, then every runnable of the task
that is in the main queue, or was taken from there into the queue of a dispatcher, has the event of
the task and one output for each of its ancestors: that which the run of the ancestor appended. -/
theorem queued_inherits {now : Int64} {catalog : Catalog} {capacity : Nat} {m₀ m₁ m₂ m₃ : Machine}
    {before after : List MachineStep} (hStart : start u now catalog capacity = .ok m₀)
    (hBefore : Course u (fun _ _ => True) m₀ before m₁) (hStarts : m₁.starts s = some (j, ev))
    (hStep : m₁.step u s = some m₂) (hAfter : Course u (Appends m₁.floor.tasks.length) m₂ after m₃) :
    List.Forall₂ (fun l r => r.task = m₁.floor.tasks.length →
        Inherits j ev (m₂.trace u endings after) l r)
      (m₂.genealogy u (.blank m₂) after).main m₃.floor.main ∧
    ∀ n b, m₃.benches[n]? = some b → List.Forall₂ (fun l r => r.task = m₁.floor.tasks.length →
        Inherits j ev (m₂.trace u endings after) l r)
      ((m₂.genealogy u (.blank m₂) after).bench n).queue b.queue := by
  have hSound : m₁.Sound :=
    hBefore.invariant (fun _ _ _ h _ hStep => h.step hStep) (sound_of_start hStart)
  have hTraced := (traced_of_starts hSound hStarts hStep).course hAfter
  rw [List.nil_append] at hTraced
  exact ⟨hTraced.tracks.main, fun n b hb => (hTraced.tracks.benches.benches n b hb).queue⟩

/-! ## One run -/

/-- An action for each of two users, and one that is chained to it. -/
def forkAction : Action where
  id := "a"
  usersSelector := some (.ofLiterals ["x", "y"])
  chained := [{ id := "b" }]

/-- A job with an action that leads to two runs of another one. -/
def forkJob : Job where
  id := "j"
  maxConcurrency := 1
  actions := [{ id := "a", chained := [forkAction] }]

/-- A node came into being somewhere. -/
def somewhere : NodeChange := { kind := .create }

/-- A run of a started task of that job to the point where the first of the two has queued its
child. -/
def forkSteps : List MachineStep :=
  [.call 0, .call 0, .call 0, .call 0, .route, .dispatch 0 (.offer 0), .dispatch 0 .take,
   .dispatch 0 .hand, .dispatch 0 (.pick 0)] ++ List.replicate 10 (.work 0 0) ++
  [.route, .dispatch 0 (.offer 0), .dispatch 0 .take, .dispatch 0 .hand, .dispatch 0 (.pick 0)] ++
  List.replicate 5 (.work 0 0)

/-- Whether a message has the event of another one, which is a change, and its outputs and one
more. -/
def isOneMore (m' m : Message) : Bool :=
  match m'.event, m.event with
  | some (.nodeChange c'), some (.nodeChange c) =>
    c' = c && !m'.outputs.isEmpty && m'.outputs.dropLast = m.outputs
  | _, _ => false

/-- Whether the run that a step is about to end appends one output. -/
def appendsOne (m : Machine) : MachineStep → Bool
  | .work n w =>
    match m.execution? n w with
    | some ⟨r, .running (.finish result)⟩ => isOneMore (result m.floor.now) r.input
    | _ => true
  | _ => true

theorem kin_of_isOneMore {m' m : Message} (h : isOneMore m' m = true) :
    ∃ o, m'.Kin (m.withOutput o) := by
  unfold isOneMore at h
  split at h
  · next c' c hEvent' hEvent =>
    simp only [Bool.and_eq_true, decide_eq_true_eq, Bool.not_eq_true', List.isEmpty_eq_false_iff]
      at h
    obtain ⟨⟨rfl, hSome⟩, hOutputs⟩ := h
    refine ⟨m'.outputs.getLast hSome, hEvent'.trans hEvent.symm, ?_⟩
    rw [Message.withOutput, ← hOutputs, List.dropLast_append_getLast]
  · exact absurd h (by simp)

theorem appends_of_appendsOne {m : Machine} {s : MachineStep} (h : appendsOne m s = true) (i : Nat) :
    Appends i m s := by
  cases s with
  | work n w =>
    intro e he _ result hPhase _
    obtain ⟨r, p⟩ := e
    obtain rfl : p = .running (.finish result) := hPhase
    rw [appendsOne, he] at h
    exact kin_of_isOneMore h
  | _ => trivial

/-- In the main queue are the second of the two and the child of the first one. The one inherits
from the root only, the other from the root and from the first of the two. -/
theorem queued_inherits_forkSteps :
    ∃ m₀ m₁ m₂ m₃, start echoSetup 0 {} 8 = .ok m₀ ∧
      m₀.run echoSetup (fun _ _ => true)
        [.publish (.job { updated := some forkJob }), .listen .jobs] = some m₁ ∧
      m₁.step echoSetup (.launch forkJob (.nodeChange somewhere)) = some m₂ ∧
      m₂.run echoSetup appendsOne forkSteps = some m₃ ∧
      m₃.floor.main.map (fun r => (r.task, r.action.id, r.input.users.map (·.login))) =
        [(0, "a", ["y"]), (0, "b", ["x"])] ∧
      (m₂.genealogy echoSetup (.blank m₂) forkSteps).main.map List.length = [1, 2] ∧
      List.Forall₂ (Inherits forkJob (.nodeChange somewhere) (m₂.trace echoSetup endings forkSteps))
        (m₂.genealogy echoSetup (.blank m₂) forkSteps).main m₃.floor.main := by
  obtain ⟨m₀, m₁, m₂, hStart, hBefore, hStep, hTasks, hAfter, hDepths⟩ :
      ∃ m₀ m₁ m₂, start echoSetup 0 {} 8 = .ok m₀ ∧
        m₀.run echoSetup (fun _ _ => true)
          [.publish (.job { updated := some forkJob }), .listen .jobs] = some m₁ ∧
        m₁.step echoSetup (.launch forkJob (.nodeChange somewhere)) = some m₂ ∧
        m₁.floor.tasks.length = 0 ∧
        (m₂.run echoSetup appendsOne forkSteps).map (fun m => m.floor.main.map
          fun r => (r.task, r.action.id, r.input.users.map (·.login))) =
            some [(0, "a", ["y"]), (0, "b", ["x"])] ∧
        (m₂.genealogy echoSetup (.blank m₂) forkSteps).main.map List.length = [1, 2] :=
    ⟨_, _, _, rfl, rfl, rfl, rfl, rfl, rfl⟩
  obtain ⟨m₃, hRun, hMain⟩ := Option.map_eq_some_iff.mp hAfter
  obtain ⟨hQueued, -⟩ := queued_inherits hStart (.of_run (fun _ _ _ => trivial) hBefore) rfl hStep
    (.of_run (fun _ _ hOne => appends_of_appendsOne hOne _) hRun)
  rw [hTasks] at hQueued
  refine ⟨m₀, m₁, m₂, m₃, hStart, hBefore, hStep, hRun, hMain, hDepths, ?_⟩
  have hAll : ∀ r ∈ m₃.floor.main, r.task = 0 := by
    have hSeen : ∀ x ∈ m₃.floor.main.map fun r =>
        (r.task, r.action.id, r.input.users.map (·.login)), x.1 = 0 := by
      rw [hMain]
      simp
    exact fun r hr => hSeen _ (List.mem_map_of_mem hr)
  -- both are of the task, so both inherit
  have hBoth := (List.forall₂_and_left _ _).mpr ⟨hAll, hQueued.flip⟩
  exact hBoth.flip.imp fun l r h => h.2 h.1

end Machine

end Taskyard
