import Taskyard.Proofs.Scheduler.Attention

/-!
# Scheduler — what listeners hear

While its listener does not fall behind, a topic loses nothing: what was published on it is what was
heard and seen to, and after that what waits. A trigger waits until its listener knows whether there
is a job for it, for then it is clear what the trigger starts.

Main definitions and results:

* `Machine.unseen` — what waits.
* `Machine.Alert.step` — a step takes from what waits what it sees to, and adds what it publishes.
* `Machine.Alert.exists_listen` — until all is seen to, a listener can go on.
* `Course.sees` — what was published in a run was seen to or waits, topic by topic and in order.
-/

namespace Taskyard

/-- The topic of a message. -/
def Machine.Post.channel : Machine.Post → Channel
  | .node false _ => .tree
  | .node true _ => .attributes
  | .trigger _ => .timers
  | .job _ => .jobs

def Happening.post : Happening → Machine.Post
  | .change c => .job c
  | .node onAttributes c => .node onAttributes c
  | .trigger t _ => .trigger t

/-- The trigger that a listener has heard and still has to find the job of. -/
def Ear.unanswered : Ear → List JobTrigger
  | .seeking t | .fetching t => [t]
  | .listening | .loading _ _ | .busy _ | .deaf => []

theorem Ear.unanswered_of_rests {ear : Ear} (h : ear.rests = true) : ear.unanswered = [] := by
  rcases Ear.eq_of_rests h with rfl | rfl <;> rfl

/-- A trigger that was heard of is answered. -/
theorem Ear.unanswered_triggered (t : JobTrigger) (j : Job) :
    (Machine.triggered t j).unanswered = [] := by
  unfold Machine.triggered
  split <;> rfl

namespace Machine

/-! ## What waits -/

/-- What waits on a topic, and the trigger that a listener still has to find the job of. -/
def unseen (m : Machine) : Channel → List Post
  | .tree => (m.tree.unread listener).map (.node false)
  | .attributes => (m.attributes.unread listener).map (.node true)
  | .timers => (m.ears.all.flatMap Ear.unanswered ++ m.timers.unread listener).map .trigger
  | .jobs => (m.changes.unread listener).map .job

/-- Whether there is a free slot for a message behind those that wait. -/
def hasRoom (m : Machine) : Post → Bool
  | .node false _ => (m.tree.unread listener).length < m.tree.slots
  | .node true _ => (m.attributes.unread listener).length < m.attributes.slots
  | .trigger _ => (m.timers.unread listener).length < m.timers.slots
  | .job _ => (m.changes.unread listener).length < m.changes.slots

/-- Whether no message has to make room for what a step publishes. -/
def keepsUp (m : Machine) (s : MachineStep) : Bool := (m.posts s).all m.hasRoom

/-- The listener of each topic is live. -/
structure Tuned (m : Machine) : Prop where
  tree : m.tree.Serves listener
  attributes : m.attributes.Serves listener
  timers : m.timers.Serves listener
  changes : m.changes.Serves listener

variable {u : Setup} {m m' : Machine}

/-- Listeners stay tuned while their topics stay. -/
theorem Tuned.of_same (h : m.Tuned) (hTopics : m.SameTopics m') : m'.Tuned := by
  obtain ⟨hTree, hAttributes, hTimers, hChanges⟩ := hTopics
  exact ⟨hTree ▸ h.tree, hAttributes ▸ h.attributes, hTimers ▸ h.timers, hChanges ▸ h.changes⟩

/-- What a step does to the messages of each topic: those that waited and those that it publishes
are the ones that it sees to and the ones that wait then. -/
structure Sees (m : Machine) (hs : List Happening) (ps : List Post) (m' : Machine) : Prop where
  each (c : Channel) : m.unseen c ++ ps.filter (·.channel = c) =
    (hs.map Happening.post).filter (·.channel = c) ++ m'.unseen c
  tuned : m'.Tuned

namespace Sees

/-- Where the topics stay, all that can change is which triggers are unanswered. -/
theorem of_same (ts : List JobTrigger) {hs : List Happening} (h : m.Tuned)
    (hTopics : m.SameTopics m') (hSeen : hs.map Happening.post = ts.map .trigger)
    (hEars : m.ears.all.flatMap Ear.unanswered = ts ++ m'.ears.all.flatMap Ear.unanswered) :
    Sees m hs [] m' := by
  refine ⟨fun c => ?_, h.of_same hTopics⟩
  obtain ⟨hTree, hAttributes, hTimers, hChanges⟩ := hTopics
  rw [List.filter_nil, List.append_nil, hSeen, List.filter_map]
  cases c with
  | tree => simp [unseen, hTree, Function.comp_def, Post.channel]
  | attributes => simp [unseen, hAttributes, Function.comp_def, Post.channel]
  | timers => simp [unseen, hTimers, hEars, Function.comp_def, Post.channel]
  | jobs => simp [unseen, hChanges, Function.comp_def, Post.channel]

/-- What is published is seen later by the listener it is for. -/
theorem publish {post : Post} (h : m.Tuned) (hRoom : m.hasRoom post = true) :
    Sees m [] [post] (m.publish post).1 := by
  refine ⟨fun c => ?_, ?_⟩
  -- with a free slot the message goes behind those that wait on its topic
  · rw [List.map_nil, List.filter_nil, List.nil_append]
    cases post with
    | node onAttributes x =>
      cases onAttributes with
      | false =>
        have hBehind := Topic.unread_publish h.tree (of_decide_eq_true hRoom) x
        cases c <;> simp [unseen, Machine.publish, Post.channel, hBehind]
      | true =>
        have hBehind := Topic.unread_publish h.attributes (of_decide_eq_true hRoom) x
        cases c <;> simp [unseen, Machine.publish, Post.channel, hBehind]
    | trigger t =>
      have hBehind := Topic.unread_publish h.timers (of_decide_eq_true hRoom) t
      cases c <;> simp [unseen, Machine.publish, Post.channel, hBehind]
    | job x =>
      have hBehind := Topic.unread_publish h.changes (of_decide_eq_true hRoom) x
      cases c <;> simp [unseen, Machine.publish, Post.channel, hBehind]
  · obtain ⟨hTree, hAttributes, hTimers, hChanges⟩ := h
    cases post with
    | node onAttributes x =>
      cases onAttributes with
      | false => exact ⟨hTree.publish x, hAttributes, hTimers, hChanges⟩
      | true => exact ⟨hTree, hAttributes.publish x, hTimers, hChanges⟩
    | trigger t => exact ⟨hTree, hAttributes, hTimers.publish t, hChanges⟩
    | job x => exact ⟨hTree, hAttributes, hTimers, hChanges.publish x⟩

/-- What follows on a step without touching topics or listeners changes nothing of what is seen. -/
theorem trans_same {m₁ : Machine} {hs : List Happening} {ps : List Post} (h : Sees m hs ps m₁)
    (hTopics : m₁.SameTopics m') (hEars : m'.ears = m₁.ears) : Sees m hs ps m' := by
  refine ⟨fun c => ?_, h.tuned.of_same hTopics⟩
  have hSame : m'.unseen c = m₁.unseen c := by
    obtain ⟨hTree, hAttributes, hTimers, hChanges⟩ := hTopics
    cases c <;> simp only [unseen, hTree, hAttributes, hTimers, hChanges, hEars]
  rw [hSame]
  exact h.each c

/-- A message that is heard of was the first of those that waited. -/
theorem hears {hs : List Happening} (hTuned : m'.Tuned) {post : Post}
    (hSeen : hs.map Happening.post = [post])
    (hHere : m.unseen post.channel = post :: m'.unseen post.channel)
    (hOthers : ∀ c, c ≠ post.channel → m.unseen c = m'.unseen c) : Sees m hs [] m' := by
  refine ⟨fun c => ?_, hTuned⟩
  rw [List.filter_nil, List.append_nil, hSeen]
  by_cases hSame : c = post.channel
  · subst hSame
    simpa using hHere
  · have hNot : post.channel ≠ c := fun hEq => hSame hEq.symm
    simpa [hNot] using hOthers c hSame

end Sees

/-- A step of a listener sees what it takes from its topic, and nothing else. -/
theorem sees_of_heeds {c : Channel} {hs : List Happening} (hTuned : m.Tuned)
    (hOthers : ∀ c', c' ≠ c → (m.ears.get c').rests = true) (h : Heeds u m c hs m') :
    Sees m hs [] m' := by
  have hBefore : m.ears.all.flatMap Ear.unanswered = (m.ears.get c).unanswered :=
    Ears.flatMap_all (fun _ => Ear.unanswered_of_rests) hOthers
  have hAfter {m' : Machine} (ear : Ear) (hEars : m'.ears = m.ears.set ear c) :
      m'.ears.all.flatMap Ear.unanswered = ear.unanswered := by
    rw [hEars, Ears.flatMap_all (fun _ => Ear.unanswered_of_rests) (Ears.rests_set ear hOthers),
      Ears.get_set]
  cases h with
  -- a message is heard, and nothing changes on the other topics
  | @change t x hChannel hEar hHeard =>
    subst hChannel
    obtain ⟨hUnread, hServes⟩ := Topic.unread_receive hTuned.changes hHeard
    obtain ⟨_, _, hHandled⟩ := exists_handleChange u { m with changes := t } x
    rw [hHandled]
    refine .hears ⟨hTuned.tree, hTuned.attributes, hTuned.timers, hServes⟩ rfl ?_ fun c hNot => ?_
    · exact congrArg (List.map Post.job) hUnread
    · cases c with
      | jobs => exact absurd rfl hNot
      | tree | attributes | timers => rfl
  | @tree t x hChannel hEar hHeard =>
    subst hChannel
    obtain ⟨hUnread, hServes⟩ := Topic.unread_receive hTuned.tree hHeard
    refine .hears ⟨hServes, hTuned.attributes, hTuned.timers, hTuned.changes⟩ rfl ?_ fun c hNot => ?_
    · exact congrArg (List.map (Post.node false)) hUnread
    · cases c with
      | tree => exact absurd rfl hNot
      | timers =>
        -- neither before nor after does the listener have a trigger
        rw [unseen, unseen, hBefore, hEar, hAfter (.busy _) rfl]
        rfl
      | attributes | jobs => rfl
  | @attributes t x hChannel hEar hHeard =>
    subst hChannel
    obtain ⟨hUnread, hServes⟩ := Topic.unread_receive hTuned.attributes hHeard
    refine .hears ⟨hTuned.tree, hServes, hTuned.timers, hTuned.changes⟩ rfl ?_ fun c hNot => ?_
    · exact congrArg (List.map (Post.node true)) hUnread
    · cases c with
      | attributes => exact absurd rfl hNot
      | timers =>
        rw [unseen, unseen, hBefore, hEar, hAfter (.busy _) rfl]
        rfl
      | tree | jobs => rfl
  | @trigger t x hChannel hEar hHeard =>
    subst hChannel
    obtain ⟨hUnread, hServes⟩ := Topic.unread_receive hTuned.timers hHeard
    refine ⟨fun c => ?_, ⟨hTuned.tree, hTuned.attributes, hServes, hTuned.changes⟩⟩
    rw [List.filter_nil, List.append_nil, List.map_nil, List.filter_nil, List.nil_append]
    cases c with
    | timers =>
      -- the trigger is the first on the topic, and then it is with the listener
      rw [unseen, unseen, hBefore, hEar, hUnread, hAfter (.seeking x) rfl]
      rfl
    | tree | attributes | jobs => rfl
  -- the trigger that the listener has heard is seen to
  | @known x j hEar hJob =>
    refine .of_same [x] hTuned ⟨rfl, rfl, rfl, rfl⟩ rfl ?_
    rw [hBefore, hEar, hAfter _ rfl, Ear.unanswered_triggered]
    rfl
  | @found x j hEar _ | @missing x j hEar _ =>
    refine .of_same [x] hTuned ⟨rfl, rfl, rfl, rfl⟩ rfl ?_
    rw [hBefore, hEar, hAfter _ rfl]
    rfl
  -- the listener goes on
  | @load x j hEar =>
    refine .of_same [] hTuned ⟨rfl, rfl, rfl, rfl⟩ rfl ?_
    rw [hBefore, hEar, hAfter _ rfl, Ear.unanswered_triggered]
    rfl
  | @unknown x hEar _ | @errand e e' f hEar _ | @done e hEar _ =>
    refine .of_same [] hTuned ⟨rfl, rfl, rfl, rfl⟩ rfl ?_
    rw [hBefore, hEar, hAfter _ rfl]
    rfl

/-! ## Every step -/

theorem posts_cases (m : Machine) (s : MachineStep) :
    m.posts s = [] ∨ ∃ post, m.posts s = [post] := by
  unfold posts
  split
  · exact .inr ⟨_, rfl⟩
  · split
    · exact .inr ⟨_, rfl⟩
    · exact .inr ⟨_, rfl⟩
    · exact .inl rfl
  · exact .inl rfl

theorem ears_publish (m : Machine) (post : Post) : (m.publish post).1.ears = m.ears := by
  cases post with
  | node onAttributes x => cases onAttributes <;> rfl
  | trigger | job => rfl

/-- The listeners are live, and at most one of them has something to do. -/
structure Alert (m : Machine) : Prop where
  staffed : m.Staffed
  tuned : m.Tuned
  awake (c : Channel) : m.ears.get c ≠ .deaf
  alone : ∃ c, ∀ c', c' ≠ c → (m.ears.get c').rests = true

/-- **Every step** takes from what waits what it sees to, and adds what it publishes. -/
theorem Alert.step {s : MachineStep} (h : m.Alert) (hTurn : m.inTurn s = true)
    (hSilence : ∀ c, s ≠ .silence c) (hRoom : m.keepsUp s = true)
    (hStep : m.step u s = some m') : Sees m (m.happens s) (m.posts s) m' ∧ m'.Alert := by
  have hStaffed := step_staffed h.staffed hStep
  rcases heeds_or_aside h.staffed hStep with ⟨c, rfl, hHeeds⟩ | ⟨-, hHappens, hAside⟩
  -- a listener in its turn is the only one that does not rest
  · have hOthers := inTurn_listen_iff.mp hTurn
    have hSees := sees_of_heeds h.tuned hOthers hHeeds
    obtain ⟨ear, hAwake, hEars⟩ := hHeeds.exists_ear
    refine ⟨hSees, hStaffed, hSees.tuned, fun c' => ?_, c, ?_⟩
    · rw [hEars]
      by_cases hSame : c' = c
      · rw [hSame, Ears.get_set]
        exact hAwake
      · rw [Ears.get_set_of_ne _ _ hSame]
        exact h.awake c'
    · rw [hEars]
      exact Ears.rests_set ear hOthers
  -- any other step leaves the listeners alone, and publishes at most one thing
  · have hTopics := hAside.topics hSilence
    have hEars : m'.ears = m.ears := hAside.ears_eq hSilence
    have hSees : Sees m (m.happens s) (m.posts s) m' := by
      rw [hHappens]
      rcases posts_cases m s with hNone | ⟨post, hPost⟩
      -- nothing is published, so what waits is what waited
      · rw [posting, hNone] at hTopics
        rw [hNone]
        exact .of_same [] h.tuned hTopics rfl (by rw [hEars, List.nil_append])
      · rw [keepsUp, hPost, List.all_cons, List.all_nil, Bool.and_true] at hRoom
        rw [posting, hPost] at hTopics
        rw [hPost]
        exact (Sees.publish h.tuned hRoom).trans_same hTopics
          (hEars.trans (ears_publish m post).symm)
    refine ⟨hSees, hStaffed, hSees.tuned, ?_, ?_⟩
    · rw [hEars]
      exact h.awake
    · rw [hEars]
      exact h.alone

/-- A listener that waits hears what there is for it. -/
theorem Alert.exists_hear {c : Channel} (h : m.Alert) (hRests : ∀ c, m.ears.get c = .listening)
    (hWaits : m.unseen c ≠ []) : ∃ m', m.hear u c = some m' := by
  cases c with
  | tree =>
    obtain ⟨t, x, hHeard⟩ := Topic.exists_receive h.tuned.tree fun hNone => hWaits (by
      rw [unseen, hNone, List.map_nil])
    simp only [hear, hearNode, hHeard]
    exact ⟨_, rfl⟩
  | attributes =>
    obtain ⟨t, x, hHeard⟩ := Topic.exists_receive h.tuned.attributes fun hNone => hWaits (by
      rw [unseen, hNone, List.map_nil])
    simp only [hear, hearNode, hHeard]
    exact ⟨_, rfl⟩
  | timers =>
    -- no listener has a trigger, so there is one on the topic
    have hUnanswered : m.ears.all.flatMap Ear.unanswered = [] := by
      rw [Ears.flatMap_all (c := .timers) (fun _ => Ear.unanswered_of_rests) fun c _ => by
        rw [hRests c]
        rfl, hRests]
      rfl
    obtain ⟨t, x, hHeard⟩ := Topic.exists_receive h.tuned.timers fun hNone => hWaits (by
      rw [unseen, hNone, hUnanswered, List.append_nil, List.map_nil])
    simp only [hear, hHeard]
    exact ⟨_, rfl⟩
  | jobs =>
    obtain ⟨t, x, hHeard⟩ := Topic.exists_receive h.tuned.changes fun hNone => hWaits (by
      rw [unseen, hNone, List.map_nil])
    simp only [hear, hHeard]
    exact ⟨_, rfl⟩

/-- **Until all is seen to, a listener can go on** in its turn. -/
theorem Alert.exists_listen (h : m.Alert)
    (hLeft : (∃ c, m.unseen c ≠ []) ∨ ∃ c, (m.ears.get c).rests = false) :
    ∃ c m', m.inTurn (.listen c) = true ∧ m.step u (.listen c) = some m' := by
  obtain ⟨c, hOthers⟩ := h.alone
  by_cases hRests : (m.ears.get c).rests = true
  · -- all of them rest, and none has ended, so one has something to hear
    have hListens : ∀ c', m.ears.get c' = .listening := by
      intro c'
      have hHere : (m.ears.get c').rests = true := by
        by_cases hSame : c' = c
        · rw [hSame]
          exact hRests
        · exact hOthers c' hSame
      exact (Ear.eq_of_rests hHere).resolve_right (h.awake c')
    rcases hLeft with ⟨c', hWaits⟩ | ⟨c', hBusy⟩
    · obtain ⟨m', hHear⟩ := h.exists_hear (u := u) hListens hWaits
      refine ⟨c', m', inTurn_listen_iff.mpr fun k _ => ?_, ?_⟩
      · rw [hListens k]
        rfl
      · show m.listen u c' = some m'
        rw [listen, hListens c']
        exact hHear
    · rw [hListens c'] at hBusy
      cases hBusy
  · -- the one that has something to do goes on
    have hStep : ∃ m', m.listen u c = some m' := by
      unfold listen
      cases hEar : m.ears.get c with
      | listening | deaf => exact absurd (by rw [hEar]; rfl) hRests
      | seeking | fetching | loading => exact ⟨_, rfl⟩
      | busy e =>
        dsimp only
        cases runErrand u m.floor e <;> exact ⟨_, rfl⟩
    obtain ⟨m', hListen⟩ := hStep
    exact ⟨c, m', inTurn_listen_iff.mpr hOthers, hListen⟩

/-! ## Every run -/

/-- What is seen to in a run. -/
abbrev history (u : Setup) (m : Machine) (ss : List MachineStep) : List Happening :=
  m.trace u happens ss

/-- What is published in a run. -/
abbrev published (u : Setup) (m : Machine) (ss : List MachineStep) : List Post :=
  m.trace u posts ss

/-- What was published and what waited before is, topic by topic, what was seen to and what
waits. -/
theorem Course.sees {allowed : Machine → MachineStep → Prop} {ss : List MachineStep}
    (hAllowed : ∀ m s, allowed m s →
      m.inTurn s = true ∧ (∀ c, s ≠ .silence c) ∧ m.keepsUp s = true)
    (h : Course u allowed m ss m') (hm : m.Alert) :
    m'.Alert ∧ ∀ c, m.unseen c ++ (published u m ss).filter (·.channel = c) =
      ((history u m ss).map Happening.post).filter (·.channel = c) ++ m'.unseen c := by
  induction h with
  | rest m => exact ⟨hm, fun c => List.append_nil _⟩
  | @step m m₁ m₂ s ss hStepAllowed hStep _ ih =>
    obtain ⟨hTurn, hSilence, hRoom⟩ := hAllowed m s hStepAllowed
    obtain ⟨hSees, hm₁⟩ := hm.step hTurn hSilence hRoom hStep
    obtain ⟨hm₂, hRest⟩ := ih hm₁
    have hHistory : history u m (s :: ss) = m.happens s ++ history u m₁ ss := trace_cons hStep ss
    have hPublished : published u m (s :: ss) = m.posts s ++ published u m₁ ss :=
      trace_cons hStep ss
    refine ⟨hm₂, fun c => ?_⟩
    -- the messages of the first step come before those of the others, on each topic
    rw [hHistory, hPublished, List.map_append, List.filter_append, List.filter_append,
      ← List.append_assoc, hSees.each c, List.append_assoc, hRest c, List.append_assoc]

/-- At the start the listeners are tuned and there is nothing to be seen. -/
theorem alert_of_start {now : Int64} {catalog : Catalog} {capacity : Nat}
    (hStart : start u now catalog capacity = .ok m) : m.Alert ∧ ∀ c, m.unseen c = [] := by
  have hStaffed := staffed_of_start hStart
  obtain ⟨js, -, rfl⟩ := exists_of_start hStart
  have hServes {α : Type} : ((Topic.create capacity : Topic α).subscribe.1).Serves listener :=
    Topic.serves_create capacity
  refine ⟨⟨hStaffed, ⟨hServes, hServes, hServes, hServes⟩, fun c => ?_, .jobs, fun c _ => ?_⟩,
    fun c => ?_⟩
  · cases c <;> simp [Ears.get]
  · cases c <;> rfl
  · cases c <;> rfl

end Machine

end Taskyard
