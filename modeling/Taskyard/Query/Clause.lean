/-!
# Query — boolean reduction of clauses

A query is a list of clauses with an operation that reduces their verdicts. A clause is a test or a
group of further clauses, and may be negated. A query or group without clauses holds, whatever its
operation.

Main definitions:

* `Operation`, `Clause`, `Query` — the language, over any type of tests.
* `Operation.reduce` — reduction of verdicts.
* `Query.holds` — the verdict of a query, given the verdicts of the tests.
-/

namespace Taskyard

/-- How the verdicts of clauses are reduced. -/
inductive Operation where
  /-- One of them has to hold. -/
  | any
  /-- All of them have to hold. -/
  | all
  deriving DecidableEq, Repr

/-- The verdict of a list of verdicts. An empty list holds. -/
def Operation.reduce (op : Operation) (verdicts : List Bool) : Bool :=
  if verdicts.isEmpty then true
  else match op with
    | .any => verdicts.any id
    | .all => verdicts.all id

/-- A clause over tests of type `α`, a `SubQuery`: a test or a group of clauses, possibly
negated. -/
inductive Clause (α : Type) where
  /-- A test. -/
  | test (negated : Bool) (p : α)
  /-- A group of clauses. -/
  | group (negated : Bool) (operation : Operation) (clauses : List (Clause α))

/-- A list of clauses and the reduction of their verdicts. -/
structure Query (α : Type) where
  /-- The clauses. -/
  clauses : List (Clause α) := []
  /-- The reduction. -/
  operation : Operation := .any

namespace Clause

variable {α : Type}

mutual

/-- The verdict of a clause, given the verdicts of the tests. -/
def holds (verdict : α → Bool) : Clause α → Bool
  | test negated p => verdict p != negated
  | group negated op clauses => op.reduce (verdicts verdict clauses) != negated

/-- The verdicts of a list of clauses. -/
def verdicts (verdict : α → Bool) : List (Clause α) → List Bool
  | [] => []
  | c :: rest => holds verdict c :: verdicts verdict rest

end

/-- The verdicts of a list are those of its members. -/
theorem verdicts_eq_map (verdict : α → Bool) :
    ∀ cs : List (Clause α), verdicts verdict cs = cs.map (holds verdict)
  | [] => rfl
  | c :: rest => by rw [verdicts, List.map_cons, verdicts_eq_map verdict rest]

end Clause

namespace Query

variable {α : Type}

/-- The query without clauses. -/
def empty : Query α := {}

/-- The query with one more test. -/
def or (q : Query α) (p : α) : Query α := { q with clauses := q.clauses ++ [.test false p] }

/-- The query with one more test, negated. -/
def orNot (q : Query α) (p : α) : Query α := { q with clauses := q.clauses ++ [.test true p] }

/-- The query with another one as one more group. -/
def orGroup (q : Query α) (g : Query α) : Query α :=
  { q with clauses := q.clauses ++ [.group false g.operation g.clauses] }

/-- The query of a single test. -/
def single (p : α) : Query α := empty.or p

/-- The query that asks for all of several tests. -/
def allOf (ps : List α) : Query α := ps.foldl or { operation := .all }

/-- Whether the query has no clauses. -/
def isEmpty (q : Query α) : Bool := q.clauses.isEmpty

/-- The verdict of the query, given the verdicts of the tests. -/
def holds (verdict : α → Bool) (q : Query α) : Bool :=
  q.operation.reduce (Clause.verdicts verdict q.clauses)

end Query

end Taskyard
