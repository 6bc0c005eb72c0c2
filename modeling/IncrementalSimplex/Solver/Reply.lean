/-
# Replies

A call of the solver takes a state and returns a `Reply`: the state it leaves, whether it
succeeded, and the events on the way.  The state is there in every case, because a call that fails
may still have changed it; what a failure leaves behind is part of what the call does.

`Reply.andThen` is the only way in which calls are put together: go on from the state of a reply
if it succeeded, and keep its events.
-/
import IncrementalSimplex.Event
import IncrementalSimplex.Solver
import IncrementalSimplex.Tableau.Pass

namespace IncrementalSimplex

/-- What a call leaves, how it ended, and what it reported. -/
structure Reply (α : Type) where
  solver : Solver α
  outcome : Except Halt Unit
  events : List Event := []

namespace Reply

variable {α : Type} [Scalar α]

/-- Success. -/
def done (s : Solver α) : Reply α := ⟨s, .ok (), []⟩

/-- Failure. -/
def stopped (s : Solver α) (h : Halt) : Reply α := ⟨s, .error h, []⟩

/-- A refusal. -/
def refused (s : Solver α) (e : SolverError) : Reply α := .stopped s (.refused e)

/-- The same reply after earlier events. -/
def after (r : Reply α) (earlier : List Event) : Reply α :=
  { r with events := earlier ++ r.events }

/-- The same reply with one more event at its end. -/
def reporting (r : Reply α) (e : Event) : Reply α := { r with events := r.events ++ [e] }

/-- Go on with another call, if this one succeeded. -/
def andThen (r : Reply α) (next : Solver α → Reply α) : Reply α :=
  match r.outcome with
  | .ok () => (next r.solver).after r.events
  | .error _ => r

/-- The reply of a pass over the tableau of `s`. -/
def ofPass (s : Solver α) (pass : Pass α Unit) : Reply α :=
  ⟨{ s with tableau := pass.tableau }, pass.outcome, pass.pivots.map .pivoted⟩

/-! What putting together does to each part. -/

omit [Scalar α] in
@[simp] theorem solver_after (r : Reply α) (earlier : List Event) :
    (r.after earlier).solver = r.solver := rfl

omit [Scalar α] in
@[simp] theorem outcome_after (r : Reply α) (earlier : List Event) :
    (r.after earlier).outcome = r.outcome := rfl

omit [Scalar α] in
theorem andThen_of_ok {r : Reply α} (h : r.outcome = .ok ()) (next : Solver α → Reply α) :
    r.andThen next = (next r.solver).after r.events := by
  simp [andThen, h]

omit [Scalar α] in
/-- A failure is final. -/
theorem andThen_of_error {r : Reply α} {halt : Halt} (h : r.outcome = .error halt)
    (next : Solver α → Reply α) : r.andThen next = r := by
  simp [andThen, h]

end Reply

namespace Solver

variable {α : Type} [Scalar α]

/-- Minimize the main objective. -/
def optimize (s : Solver α) : Reply α :=
  .ofPass s (s.tableau.minimize s.config.maxIterations .main)

/-- Repair the rows on the queue. -/
def repair (s : Solver α) : Reply α :=
  .ofPass s (s.tableau.repair s.config.maxIterations)

end Solver

end IncrementalSimplex
