import Taskyard.Scheduler.Machine

/-!
# Scheduler — runs

A run is a list of steps that were taken one after another, each of them allowed in the state in
which it was taken. What is allowed is a parameter: runs differ in what they ask of the order of
steps and of the outside.

Main definitions and results:

* `Machine.Course` — a run, and `Course.invariant` for what it keeps.
* `Machine.run` — the same by computation, for runs that are given step by step.
* `Machine.trace` — what the steps of a run put out, and `Course.trace_invariant` for what a run
  keeps of its states and of what it has put out so far.
-/

namespace Taskyard.Machine

/-- A run: steps that are taken one after another, each in a state in which it is allowed. -/
inductive Course (u : Setup) (allowed : Machine → MachineStep → Prop) :
    Machine → List MachineStep → Machine → Prop
  | rest (m : Machine) : Course u allowed m [] m
  | step {m m₁ m₂ : Machine} {s : MachineStep} {ss : List MachineStep} (hAllowed : allowed m s)
      (hStep : m.step u s = some m₁) (hRest : Course u allowed m₁ ss m₂) :
      Course u allowed m (s :: ss) m₂

/-- What every allowed step keeps, a run keeps. -/
theorem Course.invariant {u : Setup} {allowed : Machine → MachineStep → Prop}
    {P : Machine → Prop} (hKeep : ∀ m m' s, P m → allowed m s → m.step u s = some m' → P m')
    {m m' : Machine} {ss : List MachineStep} (h : Course u allowed m ss m') (hm : P m) : P m' := by
  induction h with
  | rest => exact hm
  | step hAllowed hStep _ ih => exact ih (hKeep _ _ _ hm hAllowed hStep)

/-- A run goes on where another one ended. -/
theorem Course.append {u : Setup} {allowed : Machine → MachineStep → Prop}
    {m m₁ m₂ : Machine} {ss ss' : List MachineStep} (h : Course u allowed m ss m₁)
    (h' : Course u allowed m₁ ss' m₂) : Course u allowed m (ss ++ ss') m₂ := by
  induction h with
  | rest => exact h'
  | step hAllowed hStep _ ih => exact .step hAllowed hStep (ih h')

/-- A run of two parts comes through the state between them. -/
theorem Course.exists_of_append {u : Setup} {allowed : Machine → MachineStep → Prop}
    {m m' : Machine} {ss ss' : List MachineStep} (h : Course u allowed m (ss ++ ss') m') :
    ∃ m₁, Course u allowed m ss m₁ ∧ Course u allowed m₁ ss' m' := by
  induction ss generalizing m with
  | nil => exact ⟨m, .rest m, h⟩
  | cons s ss ih =>
    cases h with
    | step hAllowed hStep hRest =>
      obtain ⟨m₁, hFirst, hSecond⟩ := ih hRest
      exact ⟨m₁, .step hAllowed hStep hFirst, hSecond⟩

/-- What is allowed may be widened. -/
theorem Course.imp {u : Setup} {allowed allowed' : Machine → MachineStep → Prop}
    {m m' : Machine} {ss : List MachineStep} (h : Course u allowed m ss m')
    (hWider : ∀ m s, allowed m s → allowed' m s) : Course u allowed' m ss m' := by
  induction h with
  | rest m => exact .rest m
  | step hAllowed hStep _ ih => exact .step (hWider _ _ hAllowed) hStep ih

/-- A run that is allowed in two ways is allowed in both at once. -/
theorem Course.both {u : Setup} {allowed allowed' : Machine → MachineStep → Prop}
    {m m' : Machine} {ss : List MachineStep} (h : Course u allowed m ss m')
    (h' : Course u allowed' m ss m') : Course u (fun m s => allowed m s ∧ allowed' m s) m ss m' := by
  induction h with
  | rest m => exact .rest m
  | step hAllowed hStep _ ih =>
    cases h' with
    | step hAllowed' hStep' hRest' =>
      -- a step leads to one state only
      obtain rfl := Option.some.inj (hStep.symm.trans hStep')
      exact .step ⟨hAllowed, hAllowed'⟩ hStep (ih hRest')

/-- Whether the router goes on with a step. -/
def keepsRouter : MachineStep → Bool
  | .endRouter => false
  | _ => true

/-- A step with which the router goes on is not its end. -/
theorem ne_endRouter {s : MachineStep} (h : keepsRouter s = true) : s ≠ .endRouter := by
  rintro rfl
  exact absurd h (by decide)

/-- The machine after steps that pass a check, if they can be taken one after another. -/
def run (u : Setup) (check : Machine → MachineStep → Bool) (m : Machine) :
    List MachineStep → Option Machine
  | [] => some m
  | s :: ss => if check m s then (m.step u s).bind fun m => run u check m ss else none

/-- Steps that pass a check, and can be taken one after another, are a run. -/
theorem Course.of_run {u : Setup} {allowed : Machine → MachineStep → Prop}
    {check : Machine → MachineStep → Bool} {m m' : Machine} {ss : List MachineStep}
    (hCheck : ∀ m s, check m s = true → allowed m s) (h : m.run u check ss = some m') :
    Course u allowed m ss m' := by
  induction ss generalizing m with
  | nil =>
    obtain rfl := Option.some.inj h
    exact .rest m
  | cons s ss ih =>
    rw [run] at h
    split at h
    · next hPassed =>
      obtain ⟨m₁, hStep, hRest⟩ := Option.bind_eq_some_iff.mp h
      exact .step (hCheck m s hPassed) hStep (ih hRest)
    · exact absurd h (by simp)

section Traces

variable {α : Type} {u : Setup} {out : Machine → MachineStep → List α}

/-- What the steps of a run put out, one after another. -/
def trace (u : Setup) (out : Machine → MachineStep → List α) (m : Machine) :
    List MachineStep → List α
  | [] => []
  | s :: ss => out m s ++ (m.step u s).elim [] fun m => trace u out m ss

theorem trace_cons {m m₁ : Machine} {s : MachineStep} (hStep : m.step u s = some m₁)
    (ss : List MachineStep) : m.trace u out (s :: ss) = out m s ++ m₁.trace u out ss := by
  rw [trace, hStep, Option.elim_some]

/-- What a run of two parts puts out is what its parts put out. -/
theorem Course.trace_append {allowed : Machine → MachineStep → Prop} {m m' : Machine}
    {ss : List MachineStep} (h : Course u allowed m ss m') (ss' : List MachineStep) :
    m.trace u out (ss ++ ss') = m.trace u out ss ++ m'.trace u out ss' := by
  induction h with
  | rest => rfl
  | step _ hStep _ ih => rw [List.cons_append, trace_cons hStep, trace_cons hStep, ih,
      List.append_assoc]

/-- What every step keeps of the state and of all that was put out before it, a run keeps. -/
theorem Course.trace_invariant {allowed : Machine → MachineStep → Prop}
    {P : List α → Machine → Prop}
    (hKeep : ∀ past m m' s, P past m → allowed m s → m.step u s = some m' → P (past ++ out m s) m')
    {m m' : Machine} {ss : List MachineStep} (h : Course u allowed m ss m') {past : List α}
    (hm : P past m) : P (past ++ m.trace u out ss) m' := by
  induction h generalizing past with
  | rest m =>
    rw [trace, List.append_nil]
    exact hm
  | step hAllowed hStep _ ih =>
    rw [trace_cons hStep, ← List.append_assoc]
    exact ih (hKeep _ _ _ _ hm hAllowed hStep)

end Traces

end Taskyard.Machine
