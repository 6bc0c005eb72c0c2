/-
# Workspaces: a space, a solver and the constraints between them

A workspace is what a caller works in: one space of variables, one solver, the constraints written
down so far and the number for the next one.

**Every constraint made takes the next number**, and nothing else does.  A formula that is not
linear makes no constraint and takes none; a copy keeps the number of what it copies; and putting a
variable under edit takes one for the constraint of the edit, unless the edit is refused before
that constraint is made.  Such a constraint is not among those written down, so a caller cannot
remove it by hand.
-/
import IncrementalSimplex.Formula
import IncrementalSimplex.Solver.Call
import IncrementalSimplex.Solver.Flush

namespace IncrementalSimplex

/-- A space, a solver, and the constraints written down. -/
structure Workspace (α γ : Type) where
  space : Space α γ
  solver : Solver α
  /-- The constraints written down, in order. -/
  constraints : List (Constraint α)
  /-- The number for the next constraint. -/
  next : Nat

namespace Workspace

variable {α γ : Type} [Scalar α]

/-- An empty workspace. -/
def new (config : SolverConfig := {}) : Workspace α γ := ⟨.empty, .new config, [], 0⟩

/-! ## 1. Writing constraints down -/

/-- Write a constraint down. -/
def keep (w : Workspace α γ) (c : Constraint α) (p : Option Priority) :
    Workspace α γ × Constraint α :=
  let c := match p with
    | some p => c.withPriority p
    | none => c
  ({ w with constraints := w.constraints ++ [c] }, c)

/-- The next number. -/
def mint (w : Workspace α γ) : Workspace α γ × ConstraintId :=
  ({ w with next := w.next + 1 }, ⟨w.next⟩)

/-- **Two formulas in a relation**; the left one is evaluated first. -/
def relate (w : Workspace α γ) (f : Formula α) (r : Relation) (g : Formula α)
    (p : Option Priority) : Except ExpressionError (Workspace α γ × Constraint α) := do
  let a ← f.linearize
  let b ← g.linearize
  let (w, id) := w.mint
  return w.keep (.relate id a r b) p

/-- **A formula in a relation to zero.** -/
def compare (w : Workspace α γ) (f : Formula α) (r : Relation) (p : Option Priority) :
    Except ExpressionError (Workspace α γ × Constraint α) := do
  let a ← f.linearize
  let (w, id) := w.mint
  return w.keep { id, expression := a.toExpression, relation := r } p

/-- A copy of a constraint, under the same number. -/
def copy (w : Workspace α γ) (c : Constraint α) (p : Option Priority) :
    Workspace α γ × Constraint α := w.keep c p

/-! ## 2. Calls -/

/-- Carry out a call of the solver. -/
def perform (w : Workspace α γ) (c : Call α) : Workspace α γ × Reply α :=
  let r := w.solver.perform c
  ({ w with solver := r.solver }, r)

/-- **Put a variable under edit**, with a constraint of its own. -/
def edit (w : Workspace α γ) (v : Variable) (p : Priority) : Workspace α γ × Reply α :=
  match w.solver.editRefusal? v p with
  | some _ => w.perform (.edit ⟨w.next⟩ v p)
  | none =>
    let (w, id) := w.mint
    w.perform (.edit id v p)

/-- Replace the solver by a new one. -/
def restart (w : Workspace α γ) (config : SolverConfig := {}) : Workspace α γ :=
  { w with solver := .new config }

/-- Write the solved values into the space. -/
def flush? (w : Workspace α γ) : Option (Workspace α γ × Flush α γ) :=
  (w.solver.flush? w.space).map fun f => ({ w with space := f.space }, f)

end Workspace

end IncrementalSimplex
