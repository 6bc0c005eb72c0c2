/-
# Adding a constraint

`Solver.add` refuses a constraint that is live already or has a negative priority, before it
touches anything.  Otherwise the constraint is encoded, its row is placed in the tableau, the
constraint is recorded, and the objective is minimized again.

**What a failure leaves behind.**  A rejection, or a phase one that fails, puts the tableau back to
what it was after encoding, without an artificial objective; the numbering of symbols and the
symbols given to variables are not taken back.  A failure of the final minimization comes after the
constraint was recorded, and the constraint stays live.
-/
import IncrementalSimplex.Solver.Encoding
import IncrementalSimplex.Solver.Reply

namespace IncrementalSimplex

variable {α : Type} [Scalar α]

/-! ## 1. Placing the row -/

/-- A required constraint cannot be satisfied. -/
def Solver.reject (s : Solver α) (id : ConstraintId) : Reply α :=
  (Reply.refused s (.unsatisfiableConstraint id)).reporting (.rejected id)

/-- Put a tableau from before phase one back. -/
def Solver.restore (s : Solver α) (t : Tableau α) : Solver α :=
  { s with tableau := { t with artificial := none } }

namespace Encoding

/-- Solve the row for a subject and make it basic. -/
def placeBasic (e : Encoding α) (subject : Symbol) : Reply α :=
  match e.row.solveFor? subject with
  | none => .stopped e.solver (.absentSymbol subject)
  | some row => .done { e.solver with tableau := e.solver.tableau.enter subject row }

/-- Insert the row through an artificial symbol, or put the tableau back. -/
def placeArtificial (e : Encoding α) (id : ConstraintId) : Reply α :=
  let (s, art) := e.solver.newSymbol .slack
  let pass := s.tableau.phaseOne s.config.maxIterations art e.row
  let pivots := pass.pivots.map .pivoted
  match pass.outcome with
  | .ok true => ⟨{ s with tableau := pass.tableau }, .ok (), pivots⟩
  | .ok false => ((s.restore e.solver.tableau).reject id).after pivots
  | .error (.refused err) => (Reply.refused (s.restore e.solver.tableau) err).after pivots
  | .error (.absentSymbol x) =>
    ⟨{ s with tableau := pass.tableau }, .error (.absentSymbol x), pivots⟩

/-- **Place the row**, wherever it belongs. -/
def place (e : Encoding α) (id : ConstraintId) : Reply α :=
  match e.placement with
  | .basic subject => e.placeBasic subject
  | .conflict => e.solver.reject id
  | .artificial => e.placeArtificial id

end Encoding

namespace Solver

/-! ## 2. The call -/

/-- List a constraint as live. -/
def record (s : Solver α) (c : Constraint α) (tag : Tag) : Reply α :=
  ⟨{ s with constraints := s.constraints.insert c.id ⟨tag, c.priority⟩ }, .ok (),
    [.added c.id c.relation c.priority]⟩

/-- **Add a constraint.** -/
def add (s : Solver α) (c : Constraint α) : Reply α :=
  if s.has c then .refused s (.duplicateConstraint c.id)
  else if c.priority.isNegative then .refused s (.negativePriority c.id)
  else
    let e := s.encode c
    ((e.place c.id).andThen (·.record c e.tag)).andThen optimize

end Solver

end IncrementalSimplex
