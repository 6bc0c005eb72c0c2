/-
# The solver's state

Around the tableau the solver keeps three registries, each in order of arrival:

* `constraints`: the live constraints, with the tag that each brought and its priority;
* `symbols`: the external symbol of every variable that a constraint has ever mentioned with a
  coefficient that counts.  Nothing is ever taken out of it, so a variable keeps its symbol;
* `edits`: the variables under edit, with the constraint made for each and the last value
  suggested.

New symbols are numbered by `counter`, from one upwards.
-/
import IncrementalSimplex.Constraint
import IncrementalSimplex.Registry
import IncrementalSimplex.Tableau

namespace IncrementalSimplex

/-! ## 1. The state -/

/-- What can be set. -/
structure SolverConfig where
  /-- How many pivots a pass may make. -/
  maxIterations : Nat := 100000
  deriving DecidableEq

/-- What the solver remembers of a live constraint. -/
structure ConstraintRecord where
  tag : Tag
  priority : Priority
  deriving DecidableEq

/-- A variable under edit. -/
structure Edit (α : Type) where
  tag : Tag
  /-- The constraint that pulls the variable to the suggested value. -/
  constraint : Constraint α
  /-- The value last suggested, zero at first. -/
  constant : α

/-- The state between two calls. -/
structure Solver (α : Type) where
  config : SolverConfig
  /-- The number of the symbol created last. -/
  counter : Nat
  constraints : Registry ConstraintId ConstraintRecord
  symbols : Registry Variable Symbol
  edits : Registry Variable (Edit α)
  tableau : Tableau α

namespace Solver

variable {α : Type} [Scalar α]

/-- A solver without constraints. -/
def new (config : SolverConfig := {}) : Solver α := ⟨config, 0, .empty, .empty, .empty, .empty⟩

instance : Inhabited (Solver α) := ⟨new⟩

/-! ## 2. Reading the state -/

/-- Whether a constraint is live. -/
def has (s : Solver α) (c : Constraint α) : Bool := s.constraints.contains c.id

/-- Whether a variable is under edit. -/
def hasEdit (s : Solver α) (v : Variable) : Bool := s.edits.contains v

/-- The value of a symbol: the constant of its row, or zero when it is not basic. -/
def symbolValue (s : Solver α) (x : Symbol) : α :=
  match s.tableau.rows.get? x with
  | some row => row.constant
  | none => 0

/-- **The solved value of a variable**: that of its symbol, or zero when it was never met. -/
def value (s : Solver α) (v : Variable) : α :=
  match s.symbols.get? v with
  | some x => s.symbolValue x
  | none => 0

/-! ## 3. New symbols -/

/-- Create the next symbol. -/
def newSymbol (s : Solver α) (kind : SymbolKind) : Solver α × Symbol :=
  ({ s with counter := s.counter + 1 }, ⟨s.counter + 1, kind⟩)

/-- The external symbol of a variable, created when it is first asked for. -/
def symbolOf (s : Solver α) (v : Variable) : Solver α × Symbol :=
  match s.symbols.get? v with
  | some x => (s, x)
  | none =>
    let (s, x) := s.newSymbol .external
    ({ s with symbols := s.symbols.insert v x }, x)

end Solver

end IncrementalSimplex
