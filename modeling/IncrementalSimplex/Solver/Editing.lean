/-
# Edit variables

A variable under edit is pulled towards a suggested value by a soft equality of its own, `v == 0`
at first.  A new suggestion does not replace that constraint.  It shifts the constants of the rows
that depend on the target, by the difference to the last one, and the dual pass repairs the rows
that became negative.

**Which rows depend on the target** is read off the two error symbols of the edit's tag.  If the
marker is basic only its own row does, and so for the other one; if neither is basic, every row with
a cell for the marker does, in proportion.
-/
import IncrementalSimplex.Solver.Insertion
import IncrementalSimplex.Solver.Removal

namespace IncrementalSimplex

variable {α : Type} [Scalar α]

namespace Tableau

/-! ## 1. Shifting a target -/

/-- One row under a shift of the target, when neither error symbol is basic. -/
def shiftRow (marker : Symbol) (delta : α) (row : Row α) : Row α :=
  let c := row.coefficient marker
  if c != 0 then row.addConstant (delta * c) else row

/-- The restricted rows that such a shift leaves negative, in order. -/
def shiftedNegative (rows : SymbolMap (Row α)) (marker : Symbol) (delta : α) : List Symbol :=
  (rows.entries.filter fun (s, row) =>
    row.coefficient marker != 0 && decide ((shiftRow marker delta row).constant < 0) &&
      s.isRestricted).map (·.1)

/-- **Shift the target of an edit.**  Rows that become negative go on the queue. -/
def shift (t : Tableau α) (tag : Tag) (delta : α) : Tableau α :=
  match t.rows.get? tag.marker with
  | some row => t.setRowQueued tag.marker (row.addConstant (-delta))
  | none =>
    match t.rows.get? tag.other with
    | some row => t.setRowQueued tag.other (row.addConstant delta)
    | none =>
      { t with
        rows := t.rows.map (shiftRow tag.marker delta)
        infeasible := (shiftedNegative t.rows tag.marker delta).reverse ++ t.infeasible }

end Tableau

namespace Solver

/-! ## 2. Beginning and ending an edit -/

/-- Why a variable cannot be put under edit at a priority. -/
def editRefusal? (s : Solver α) (v : Variable) (p : Priority) : Option SolverError :=
  if s.hasEdit v then some (.duplicateEditVariable v)
  else if p.isNegative || p.isRequired then some (.badEditPriority p)
  else none

/-- The constraint of an edit: the variable equals zero, softly. -/
def editConstraint (id : ConstraintId) (v : Variable) (p : Priority) : Constraint α :=
  { id, expression := .ofTerm (.ofVariable v), relation := .equal, priority := p }

/-- Drop the constraint of an edit that could not be begun because of `e`, if it was recorded. -/
def abandonEdit (s : Solver α) (c : Constraint α) (v : Variable) (e : SolverError) : Reply α :=
  if s.has c then
    let r := s.remove c
    match r.outcome with
    | .ok () => ⟨r.solver, .error (.refused e), r.events⟩
    | .error (.refused dropping) =>
      ⟨r.solver, .error (.refused e), r.events ++ [.editDropFailed v dropping]⟩
    | .error (.absentSymbol _) => r
  else .refused s e

/-- List an edit whose constraint is live. -/
def recordEdit (s : Solver α) (c : Constraint α) (v : Variable) : Reply α :=
  match s.constraints.get? c.id with
  | none => .refused s (.internal .editNotRecorded)
  | some r =>
    ⟨{ s with edits := s.edits.insert v ⟨r.tag, c, 0⟩ }, .ok (), [.editAdded v c.priority]⟩

/-- **Put a variable under edit**, with a constraint made under `id`. -/
def addEdit (s : Solver α) (id : ConstraintId) (v : Variable) (p : Priority) : Reply α :=
  match s.editRefusal? v p with
  | some e => .refused s e
  | none =>
    let c := editConstraint id v p
    let r := s.add c
    match r.outcome with
    | .ok () => (r.solver.recordEdit c v).after r.events
    | .error (.refused e) => (r.solver.abandonEdit c v e).after r.events
    | .error (.absentSymbol _) => r

/-- **End an edit**, and remove its constraint. -/
def removeEdit (s : Solver α) (v : Variable) : Reply α :=
  match s.edits.get? v with
  | none => .refused s (.unknownEditVariable v)
  | some edit =>
    ({ s with edits := s.edits.erase v }.remove edit.constraint).andThen fun s =>
      (Reply.done s).reporting (.editRemoved v)

/-! ## 3. Suggesting a value -/

/-- **Suggest a value** for a variable under edit.  For any other variable nothing happens. -/
def suggest (s : Solver α) (v : Variable) (x : α) : Reply α :=
  match s.edits.get? v with
  | none => .done s
  | some edit =>
    { s with
      edits := s.edits.insert v { edit with constant := x }
      tableau := s.tableau.shift edit.tag (x - edit.constant) }.repair

end Solver

end IncrementalSimplex
