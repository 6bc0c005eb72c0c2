/-
# Removing a constraint

The constraint is taken off the list first; from there on it is no longer live, whatever happens.
Then its traces are taken out of the tableau: the cost of its errors, and the row of its marker.  A
marker that is not basic is first exchanged with a row that has it; a marker that occurs nowhere
left no trace.  Last, the objective is minimized again.
-/
import IncrementalSimplex.Solver.Reply

namespace IncrementalSimplex

variable {α : Type} [Scalar α]

namespace Tableau

/-! ## 1. The traces of a constraint -/

/-- Take the cost of an error symbol back: from its row if it is basic, else from its cell.  Other
symbols carry no cost. -/
def uncharge (t : Tableau α) (x : Symbol) (weight : α) : Tableau α :=
  if x.isError then
    { t with objective :=
      match t.rows.get? x with
      | some row => t.objective.addRow row (-weight)
      | none => t.objective.addCell x (-weight) }
  else t

/-- **Take the marker out.**  Its row is dropped if it is basic; else it is solved for in a row
that has it, and that row is dropped after it was put in place of the marker everywhere. -/
def expel (t : Tableau α) (marker : Symbol) : Except Halt (Tableau α) :=
  match t.rows.get? marker with
  | some _ => .ok (t.dropRow marker)
  | none =>
    match t.leavingForMarker? marker with
    | none => .ok t
    | some leaving =>
      match t.rows.get? leaving with
      | none => .error (.refused (.internal .leavingRowVanished))
      | some row =>
        match row.exchange? leaving marker with
        | none => .error (.absentSymbol marker)
        | some solved => .ok ((t.dropRow leaving).substitute marker solved)

end Tableau

namespace Solver

/-! ## 2. The call -/

/-- Take the traces of a constraint out of the tableau. -/
def clear (s : Solver α) (r : ConstraintRecord) : Reply α :=
  let t := (s.tableau.uncharge r.tag.marker r.priority.weight).uncharge r.tag.other
    r.priority.weight
  match t.expel r.tag.marker with
  | .ok t => .done { s with tableau := t }
  | .error h => .stopped { s with tableau := t } h

/-- **Remove a constraint.** -/
def remove (s : Solver α) (c : Constraint α) : Reply α :=
  match s.constraints.get? c.id with
  | none => .refused s (.unknownConstraint c.id)
  | some r =>
    let s := { s with constraints := s.constraints.erase c.id }
    ((s.clear r).andThen fun s => (Reply.done s).reporting (.removed c.id)).andThen optimize

end Solver

end IncrementalSimplex
