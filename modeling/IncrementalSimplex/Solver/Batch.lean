/-
# Batches

A batch adds or removes several constraints, in order.  At the first refusal what was done is
undone, latest first, and the refusal is the answer.

Undoing is best effort: a step that cannot be undone is reported as an event and the next one is
tried, so a batch that fails answers with the error that stopped it and never with an error of the
undoing.
-/
import IncrementalSimplex.Solver.Insertion
import IncrementalSimplex.Solver.Removal

namespace IncrementalSimplex

variable {α : Type} [Scalar α]

namespace Solver

/-- Undo a list of steps, reporting those that are refused. -/
def undoAll (undo : Solver α → Constraint α → Reply α) :
    List (Constraint α) → Solver α → Reply α
  | [], s => .done s
  | c :: rest, s =>
    let r := undo s c
    match r.outcome with
    | .ok () => (undoAll undo rest r.solver).after r.events
    | .error (.refused e) =>
      (undoAll undo rest r.solver).after (r.events ++ [.undoFailed c.id e])
    | .error (.absentSymbol _) => r

/-- Carry out the steps of a batch; `applied` are those that succeeded so far, latest first. -/
def batch (apply undo : Solver α → Constraint α → Reply α) (applied : List (Constraint α)) :
    List (Constraint α) → Solver α → Reply α
  | [], s => .done s
  | c :: rest, s =>
    let r := apply s c
    match r.outcome with
    | .ok () => (batch apply undo (c :: applied) rest r.solver).after r.events
    | .error (.refused e) =>
      ((undoAll undo applied r.solver).andThen (.refused · e)).after r.events
    | .error (.absentSymbol _) => r

/-- **Add constraints in order**, or none of them. -/
def addAll (s : Solver α) (cs : List (Constraint α)) : Reply α := batch add remove [] cs s

/-- **Remove constraints in order**, or none of them. -/
def removeAll (s : Solver α) (cs : List (Constraint α)) : Reply α := batch remove add [] cs s

/-! A batch by the outcome of its first step. -/

section Steps

variable {apply undo : Solver α → Constraint α → Reply α} {rest applied : List (Constraint α)}
  {c : Constraint α} {s : Solver α} {e : SolverError} {x : Symbol}

omit [Scalar α]

theorem batch_cons_ok (h : (apply s c).outcome = .ok ()) :
    batch apply undo applied (c :: rest) s =
      (batch apply undo (c :: applied) rest (apply s c).solver).after (apply s c).events := by
  simp only [batch, h]

theorem batch_cons_refused (h : (apply s c).outcome = .error (.refused e)) :
    batch apply undo applied (c :: rest) s =
      ((undoAll undo applied (apply s c).solver).andThen (.refused · e)).after
        (apply s c).events := by
  simp only [batch, h]

theorem batch_cons_absent (h : (apply s c).outcome = .error (.absentSymbol x)) :
    batch apply undo applied (c :: rest) s = apply s c := by
  simp only [batch, h]

/-! The same for the steps that are undone. -/

theorem undoAll_cons_ok (h : (undo s c).outcome = .ok ()) :
    undoAll undo (c :: rest) s = (undoAll undo rest (undo s c).solver).after (undo s c).events := by
  simp only [undoAll, h]

theorem undoAll_cons_refused (h : (undo s c).outcome = .error (.refused e)) :
    undoAll undo (c :: rest) s = (undoAll undo rest (undo s c).solver).after
      ((undo s c).events ++ [.undoFailed c.id e]) := by
  simp only [undoAll, h]

theorem undoAll_cons_absent (h : (undo s c).outcome = .error (.absentSymbol x)) :
    undoAll undo (c :: rest) s = undo s c := by
  simp only [undoAll, h]

end Steps

end Solver

end IncrementalSimplex
