/-
# Events

What a call reports about its course, apart from its answer: constraints that come and go, edits,
pivots, and undoing that failed.  An event says what happened in the domain's own values; its
level, message and fields as text are computed from it.
-/
import IncrementalSimplex.Failure
import IncrementalSimplex.Tableau

namespace IncrementalSimplex

/-- What is reported while a call is carried out. -/
inductive Event where
  /-- A constraint is live from here on; the objective is yet to be minimized. -/
  | added (id : ConstraintId) (relation : Relation) (priority : Priority)
  /-- A constraint is out of the tableau; the objective is yet to be minimized. -/
  | removed (id : ConstraintId)
  /-- A required constraint cannot be satisfied. -/
  | rejected (id : ConstraintId)
  /-- A step of a batch could not be undone. -/
  | undoFailed (id : ConstraintId) (e : SolverError)
  | editAdded (v : Variable) (priority : Priority)
  | editRemoved (v : Variable)
  /-- The constraint of an edit that came to nothing could not be removed cleanly. -/
  | editDropFailed (v : Variable) (e : SolverError)
  | pivoted (p : Tableau.Pivot)
  /-- The solved values of the variables met so far were written out. -/
  | flushed (met updates : Nat)
  deriving DecidableEq

namespace Event

/-- How much the event matters. -/
def level : Event → String
  | added .. | removed _ | editAdded .. | editRemoved _ => "DEBUG"
  | rejected _ | undoFailed .. | editDropFailed .. => "WARN"
  | pivoted _ | flushed .. => "TRACE"

/-- What happened. -/
def message : Event → String
  | added .. => "added constraint"
  | removed _ => "removed constraint"
  | rejected _ => "rejecting unsatisfiable constraint"
  | undoFailed .. => "failed to undo batch edit"
  | editAdded .. => "added edit variable"
  | editRemoved _ => "removed edit variable"
  | editDropFailed .. => "failed to drop edit constraint"
  | pivoted _ => "pivot"
  | flushed .. => "flushed"

/-- To whom it happened, as named texts. -/
def fields : Event → List (String × String)
  | added id relation priority =>
    [("constraint", id.text), ("relation", relation.text), ("priority", priority.text)]
  | removed id => [("constraint", id.text)]
  | rejected id => [("constraint", id.text)]
  | undoFailed id e => [("constraint", id.text), ("error", e.message)]
  | editAdded v priority => [("variable", toString v.index), ("priority", priority.text)]
  | editRemoved v => [("variable", toString v.index)]
  | editDropFailed v e => [("variable", toString v.index), ("error", e.message)]
  | pivoted p =>
    [("entering", p.entering.text), ("leaving", p.leaving.text), ("kind", p.entering.kind.name)]
  | flushed met updates => [("variables", toString met), ("updates", toString updates)]

end Event

end IncrementalSimplex
