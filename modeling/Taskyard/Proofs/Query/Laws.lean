import Mathlib.Logic.Relation
import Taskyard.Query.Clause

/-!
# Query — the laws of clauses

A query can be rewritten in many ways that leave its verdict as it is: the clauses may come in
another order or more than once, a clause may stand in a group of its own, and a group that is
reduced as what surrounds it may be dissolved. All of this goes for groups at any depth. With the
other operation on the opposite clauses the verdict is the opposite one.

Where there are no clauses nothing is reduced, and the verdict is positive for both operations. So
an empty group is not dissolved, and an empty query has no opposite.

Main definitions and results:

* `Operation.reduce_congr`, `Operation.reduce_splice`, `Operation.reduce_dual` — the laws of
  reduction.
* `Clause.Rewriting` — one rewriting of a list of clauses; `Clause.reduce_of_rewriting` for the
  verdict.
* `Query.Rewriting`, `Query.dual` — rewritings and the opposite of a query.
* `Query.BooleanLaws` — what can be said of the verdicts of queries; `Query.booleanLaws` for all
  tests and all targets.
-/

namespace Taskyard

/-! ## Reduction -/

namespace Operation

variable {us vs ws : List Bool}

/-- The other operation. -/
def dual : Operation → Operation
  | .any => .all
  | .all => .any

theorem reduce_nil (op : Operation) : op.reduce [] = true := rfl

/-- The operation `any` holds of no verdicts or of one that is true. -/
theorem reduce_any : Operation.any.reduce vs = true ↔ vs = [] ∨ true ∈ vs := by
  cases vs with
  | nil => simp [reduce]
  | cons v vs => simp [reduce]

/-- The operation `all` holds unless a verdict is false. -/
theorem reduce_all : Operation.all.reduce vs = true ↔ false ∉ vs := by
  cases vs with
  | nil => simp [reduce]
  | cons v vs => cases v <;> simp [reduce]

/-- It only counts which verdicts there are. -/
theorem reduce_congr (op : Operation) (h : ∀ v, v ∈ vs ↔ v ∈ ws) : op.reduce vs = op.reduce ws := by
  have hNil : vs = [] ↔ ws = [] := by
    simp only [List.eq_nil_iff_forall_not_mem, h]
  rw [Bool.eq_iff_iff]
  cases op with
  | any => rw [reduce_any, reduce_any, hNil, h]
  | all => rw [reduce_all, reduce_all, h]

theorem reduce_singleton (op : Operation) (v : Bool) : op.reduce [v] = v := by
  cases op <;> cases v <;> rfl

/-- A verdict that is itself a reduction of verdicts by the same operation stands for these. -/
theorem reduce_splice (op : Operation) (us vs : List Bool) (h : ws ≠ []) :
    op.reduce (us ++ op.reduce ws :: vs) = op.reduce (us ++ ws ++ vs) := by
  rw [Bool.eq_iff_iff]
  cases op with
  | any =>
    -- of nothing the reduction is true too: that is why none of the three may be empty
    have hInner : true = Operation.any.reduce ws ↔ true ∈ ws := by
      rw [eq_comm, reduce_any, or_iff_right h]
    have hLeft : us ++ Operation.any.reduce ws :: vs ≠ [] := by simp
    have hRight : us ++ ws ++ vs ≠ [] := by simp [h]
    rw [reduce_any, reduce_any, or_iff_right hLeft, or_iff_right hRight]
    simp only [List.mem_append, List.mem_cons, hInner, or_assoc]
  | all =>
    have hInner : false = Operation.all.reduce ws ↔ false ∈ ws := by
      rw [eq_comm, ← Bool.not_eq_true, reduce_all, Classical.not_not]
    rw [reduce_all, reduce_all]
    simp only [List.mem_append, List.mem_cons, hInner, or_assoc]

/-- A reduction of nothing does not stand for nothing. -/
example : Operation.any.reduce [false, Operation.any.reduce []] ≠ Operation.any.reduce [false] := by
  decide

/-- The other operation on the opposite verdicts gives the opposite. -/
theorem reduce_dual (op : Operation) (h : vs ≠ []) :
    op.dual.reduce (vs.map (!·)) = !op.reduce vs := by
  have hOpposite : vs.map (!·) ≠ [] := by simpa using h
  rw [Bool.eq_iff_iff, Bool.not_eq_true', ← Bool.not_eq_true]
  cases op with
  | any => rw [dual, reduce_all, reduce_any, or_iff_right h]; simp
  | all => rw [dual, reduce_any, reduce_all, or_iff_right hOpposite]; simp

end Operation

/-! ## Clauses -/

namespace Clause

variable {α : Type}

/-- Whether the verdict of a clause is reversed. -/
def negated : Clause α → Bool
  | test n _ | group n _ _ => n

/-- The clause with another word on whether its verdict is reversed. -/
def withNegated (n : Bool) : Clause α → Clause α
  | test _ p => test n p
  | group _ op cs => group n op cs

/-- The clause with the reversed verdict. -/
def opposite (c : Clause α) : Clause α := c.withNegated !c.negated

variable (verdict : α → Bool)

/-- A clause is reversed after all else. -/
theorem holds_withNegated (n : Bool) (c : Clause α) :
    (c.withNegated n).holds verdict = ((c.withNegated false).holds verdict != n) := by
  cases c <;> simp [withNegated, holds]

theorem withNegated_negated (c : Clause α) : c.withNegated c.negated = c := by cases c <;> rfl

/-- Negating a clause negates its verdict. -/
theorem holds_opposite (c : Clause α) : c.opposite.holds verdict = !c.holds verdict := by
  have hSelf := holds_withNegated verdict c.negated c
  rw [withNegated_negated] at hSelf
  rw [opposite, holds_withNegated, hSelf, Bool.bne_not]

/-- One rewriting of clauses that are reduced by an operation. -/
inductive Rewriting : Operation → List (Clause α) → List (Clause α) → Prop
  /-- The clauses come in another order. -/
  | reorder {op : Operation} {cs cs' : List (Clause α)} (h : cs.Perm cs') : Rewriting op cs cs'
  /-- One of the clauses comes once more. -/
  | duplicate {op : Operation} {cs : List (Clause α)} {c : Clause α} (h : c ∈ cs) :
    Rewriting op cs (c :: cs)
  /-- A clause is put in a group of its own as it is. -/
  | enclose {op : Operation} (op' : Operation) (before later : List (Clause α)) (c : Clause α) :
    Rewriting op (before ++ c :: later) (before ++ group false op' [c] :: later)
  /-- A clause is put in a group of its own that is reversed in its place. -/
  | encloseBare {op : Operation} (op' : Operation) (before later : List (Clause α))
      (c : Clause α) :
    Rewriting op (before ++ c :: later)
      (before ++ group c.negated op' [c.withNegated false] :: later)
  /-- The clauses of a group that is reduced in the same way stand for it. -/
  | splice {op : Operation} (before later : List (Clause α)) {cs : List (Clause α)}
      (h : cs ≠ []) :
    Rewriting op (before ++ group false op cs :: later) (before ++ cs ++ later)
  /-- The clauses of a group are rewritten. -/
  | within {op op' : Operation} (n : Bool) (before later : List (Clause α))
      {cs cs' : List (Clause α)} (h : Rewriting op' cs cs') :
    Rewriting op (before ++ group n op' cs :: later) (before ++ group n op' cs' :: later)

theorem verdicts_append (cs cs' : List (Clause α)) :
    verdicts verdict (cs ++ cs') = verdicts verdict cs ++ verdicts verdict cs' := by
  simp only [verdicts_eq_map, List.map_append]

/-- A clause counts with its verdict only. -/
theorem reduce_replace (op : Operation) (before later : List (Clause α)) {c c' : Clause α}
    (h : c.holds verdict = c'.holds verdict) :
    op.reduce (verdicts verdict (before ++ c :: later)) =
      op.reduce (verdicts verdict (before ++ c' :: later)) := by
  rw [verdicts_append, verdicts_append, verdicts, verdicts, h]

/-- **A rewriting** leaves the verdict as it is. -/
theorem reduce_of_rewriting {op : Operation} {cs cs' : List (Clause α)} (h : Rewriting op cs cs') :
    op.reduce (verdicts verdict cs) = op.reduce (verdicts verdict cs') := by
  -- by the rewriting; in a group at any depth the clauses around it see its verdict only
  induction h with
  | reorder hPerm =>
    simp only [verdicts_eq_map]
    exact Operation.reduce_congr _ fun v => (hPerm.map _).mem_iff
  | @duplicate op cs c hMem =>
    have hAgain : c.holds verdict ∈ cs.map (holds verdict) := List.mem_map_of_mem hMem
    rw [verdicts, verdicts_eq_map]
    refine Operation.reduce_congr _ fun v => ?_
    rw [List.mem_cons, or_iff_right_of_imp]
    rintro rfl
    exact hAgain
  | enclose op' before later c =>
    refine reduce_replace verdict _ before later ?_
    rw [holds, verdicts, verdicts, Operation.reduce_singleton, Bool.bne_false]
  | encloseBare op' before later c =>
    refine reduce_replace verdict _ before later ?_
    rw [holds, verdicts, verdicts, Operation.reduce_singleton, ← holds_withNegated,
      withNegated_negated]
  | @splice op before later cs hSome =>
    have hVerdicts : verdicts verdict cs ≠ [] := by
      rw [verdicts_eq_map]
      simpa using hSome
    rw [verdicts_append, verdicts_append, verdicts_append, verdicts, holds, Bool.bne_false,
      Operation.reduce_splice op _ _ hVerdicts]
  | within n before later _ ih =>
    refine reduce_replace verdict _ before later ?_
    rw [holds, holds, ih]

end Clause

/-! ## Queries -/

namespace Query

variable {α : Type}

/-- One rewriting of a query: its clauses are rewritten, or those of a group in it at any depth. -/
def Rewriting (q q' : Query α) : Prop :=
  q.operation = q'.operation ∧ Clause.Rewriting q.operation q.clauses q'.clauses

/-- The query with the other operation on the opposite clauses. -/
def dual (q : Query α) : Query α where
  clauses := q.clauses.map Clause.opposite
  operation := q.operation.dual

/-- Every rewriting keeps the verdict, by induction on the rewriting. -/
theorem holds_of_rewriting (verdict : α → Bool) {q q' : Query α} (h : Rewriting q q') :
    q.holds verdict = q'.holds verdict := by
  obtain ⟨hSame, hClauses⟩ := h
  rw [holds, holds, ← hSame, Clause.reduce_of_rewriting verdict hClauses]

/-- What can be said of the verdicts of queries over tests, given the verdicts of the tests. -/
structure BooleanLaws (verdict : α → Bool) : Prop where
  /-- Queries that come about from each other by rewritings, one after the other and in both
  directions, have the same verdict. -/
  rewritten : ∀ q q' : Query α, Relation.EqvGen Rewriting q q' →
    q.holds verdict = q'.holds verdict
  /-- The verdict is reversed with the other operation on the opposite clauses, if there are any. -/
  reversed  : ∀ q : Query α, q.isEmpty = false → q.dual.holds verdict = !q.holds verdict
  /-- A query without clauses holds. -/
  empty     : ∀ op : Operation, ({ operation := op } : Query α).holds verdict = true
  /-- So does a group without clauses, unless it is reversed. -/
  hollow    : ∀ (n : Bool) (op : Operation), (Clause.group n op []).holds verdict = !n

/-- **The laws of queries** hold of `Query.holds` for all tests, whatever their verdicts. -/
theorem booleanLaws (verdict : α → Bool) : BooleanLaws verdict where
  rewritten q q' h := by
    induction h with
    | rel q q' hStep => exact holds_of_rewriting verdict hStep
    | refl q => rfl
    | symm q q' _ ih => exact ih.symm
    | trans q q' q'' _ _ ih ih' => exact ih.trans ih'
  reversed q hSome := by
    have hClauses : q.clauses.map (Clause.holds verdict) ≠ [] := by
      simpa [isEmpty] using hSome
    -- every clause says the opposite, and so does the dual operation on them
    have hOpposite : q.dual.clauses.map (Clause.holds verdict) =
        (q.clauses.map (Clause.holds verdict)).map (!·) := by
      rw [dual, List.map_map, List.map_map]
      exact List.map_congr_left fun c _ => Clause.holds_opposite verdict c
    rw [holds, holds, Clause.verdicts_eq_map, Clause.verdicts_eq_map, hOpposite]
    exact Operation.reduce_dual q.operation hClauses
  empty op := Operation.reduce_nil op
  hollow n op := by
    rw [Clause.holds, Clause.verdicts, Operation.reduce_nil, Bool.true_bne]

/-- Three tests, two of them reversed. -/
def plainQuery : Query Nat := { clauses := [.test true 0, .test false 1, .test true 2] }

/-- The same tests in groups, and the last one twice. -/
def groupedQuery : Query Nat where
  clauses := [.group false .any [.group true .all [.test false 0], .test false 1],
    .test true 2, .test true 2]

/-- A nested query and its flat form, with the same verdict everywhere and dual to their
negation. -/
theorem booleanLaws_groupedQuery :
    Relation.EqvGen Rewriting groupedQuery plainQuery ∧
      (∀ verdict, groupedQuery.holds verdict = plainQuery.holds verdict) ∧
      ∀ verdict, groupedQuery.dual.holds verdict = !groupedQuery.holds verdict := by
  -- from either side to a query with the members of both
  have hSplice : Rewriting groupedQuery { clauses := [.group true .all [.test false 0],
      .test false 1, .test true 2, .test true 2] } :=
    ⟨rfl, .splice [] [.test true 2, .test true 2] (by simp)⟩
  have hEnclose : Rewriting { clauses := [.test true 0, .test false 1, .test true 2,
      .test true 2] } { clauses := [.group true .all [.test false 0], .test false 1,
      .test true 2, .test true 2] } :=
    ⟨rfl, .encloseBare .all [] [.test false 1, .test true 2, .test true 2] (.test true 0)⟩
  have hReorder : Rewriting { clauses := [.test true 2, .test true 0, .test false 1,
      .test true 2] } { clauses := [.test true 0, .test false 1, .test true 2, .test true 2] } :=
    ⟨rfl, .reorder ((List.Perm.swap ..).trans ((List.Perm.swap ..).cons _))⟩
  have hDuplicate : Rewriting plainQuery { clauses := [.test true 2, .test true 0, .test false 1,
      .test true 2] } := ⟨rfl, .duplicate (by simp [plainQuery])⟩
  have hAll : Relation.EqvGen Rewriting groupedQuery plainQuery :=
    .trans _ _ _ (.rel _ _ hSplice) (.symm _ _ (.trans _ _ _ (.rel _ _ hDuplicate)
      (.trans _ _ _ (.rel _ _ hReorder) (.rel _ _ hEnclose))))
  exact ⟨hAll, fun verdict => (booleanLaws verdict).rewritten _ _ hAll,
    fun verdict => (booleanLaws verdict).reversed _ rfl⟩

end Query

end Taskyard
