/-
# Calls: everything that changes a solver

The public calls as values of one type, so that a course of calls is a list and a statement about
"any course of calls" is a statement about lists.  A course ends early when a call halts on an
absent symbol; an error is an answer, and the course goes on after it.
-/
import IncrementalSimplex.Solver.Batch
import IncrementalSimplex.Solver.Editing

namespace IncrementalSimplex

/-- A call that may change a solver. -/
inductive Call (α : Type) where
  | add (c : Constraint α)
  | remove (c : Constraint α)
  | addAll (cs : List (Constraint α))
  | removeAll (cs : List (Constraint α))
  /-- Put a variable under edit; `id` is the number its constraint is made under. -/
  | edit (id : ConstraintId) (v : Variable) (p : Priority)
  | unedit (v : Variable)
  | suggest (v : Variable) (x : α)
  | reset

namespace Solver

variable {α : Type} [Scalar α]

/-- Forget everything but the configuration. -/
def reset (s : Solver α) : Reply α := .done (.new s.config)

/-- **Carry out a call.** -/
def perform (s : Solver α) : Call α → Reply α
  | .add c => s.add c
  | .remove c => s.remove c
  | .addAll cs => s.addAll cs
  | .removeAll cs => s.removeAll cs
  | .edit id v p => s.addEdit id v p
  | .unedit v => s.removeEdit v
  | .suggest v x => s.suggest v x
  | .reset => s.reset

/-- **Carry out a course of calls**, and keep the reply to each. -/
def course (s : Solver α) : List (Call α) → List (Reply α)
  | [] => []
  | c :: rest =>
    let r := s.perform c
    match r.outcome with
    | .error (.absentSymbol _) => [r]
    | _ => r :: r.solver.course rest

end Solver

end IncrementalSimplex
