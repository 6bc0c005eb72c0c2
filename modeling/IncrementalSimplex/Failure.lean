/-
# Failures

A call of the solver is answered in one of three ways.

* It succeeds.
* It is refused with a `SolverError`.  Most refusals leave no trace; the ones that do not (an
  iteration limit, an internal fault) say in their own place what they leave behind.
* It HALTS: a row was to be solved for a symbol that it does not have.  There is no answer to give
  then and nothing is undone, so this is not an error among errors but the other case of `Halt`.

The texts are fixed by `SolverError.message`; nothing else builds one.
-/
import IncrementalSimplex.Constraint
import IncrementalSimplex.Symbol

namespace IncrementalSimplex

/-- What should never go wrong inside the solver. -/
inductive InternalFault where
  /-- A cost is negative, but no row limits the symbol. -/
  | unboundedObjective
  /-- A row is negative, but no cell can raise it. -/
  | dualStuck
  /-- A symbol was chosen to leave, but has no row. -/
  | leavingRowVanished
  /-- An edit's constraint was added, but is not listed. -/
  | editNotRecorded
  deriving DecidableEq

/-- The text of the fault. -/
def InternalFault.message : InternalFault → String
  | unboundedObjective => "objective is unbounded"
  | dualStuck => "dual optimize failed"
  | leavingRowVanished => "leaving row vanished"
  | editNotRecorded => "edit constraint was not recorded"

/-- Why the solver refuses a call. -/
inductive SolverError where
  | duplicateConstraint (id : ConstraintId)
  | unsatisfiableConstraint (id : ConstraintId)
  | negativePriority (id : ConstraintId)
  | unknownConstraint (id : ConstraintId)
  | duplicateEditVariable (v : Variable)
  | unknownEditVariable (v : Variable)
  | badEditPriority (p : Priority)
  | iterationLimit (limit : Nat)
  | internal (fault : InternalFault)
  deriving DecidableEq

/-- **The text of an error.** -/
def SolverError.message : SolverError → String
  | duplicateConstraint id => s!"Constraint {id.text} has already been added"
  | unsatisfiableConstraint id => s!"Required constraint {id.text} cannot be satisfied"
  | negativePriority id => s!"Constraint {id.text} has a negative priority"
  | unknownConstraint id => s!"Constraint {id.text} is not in the solver"
  | duplicateEditVariable v => s!"Variable {v.index} already has an edit"
  | unknownEditVariable v => s!"Variable {v.index} has no edit"
  | badEditPriority p =>
    s!"Edit priority {p.text} must be non-negative and below required"
  | iterationLimit limit => s!"Simplex did not converge within {limit} pivots"
  | internal fault => s!"Internal solver error: {fault.message}"

/-- Why a call does not succeed. -/
inductive Halt where
  /-- It is refused. -/
  | refused (e : SolverError)
  /-- A row was to be solved for a symbol without a cell in it. -/
  | absentSymbol (s : Symbol)
  deriving DecidableEq

end IncrementalSimplex
