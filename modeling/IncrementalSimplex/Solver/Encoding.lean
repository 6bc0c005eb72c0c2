/-
# Encoding a constraint as a row

A new constraint becomes a row that is to equal zero.  Its terms are expressed over the current
non-basic symbols -- a variable whose symbol is basic is replaced by its row -- and its relation
adds symbols of its own:

    e <= 0   e + slack = 0,   soft:  e + slack - error = 0
    e >= 0   e - slack = 0,   soft:  e - slack + error = 0
    e == 0   e + dummy = 0,   soft:  e - plus + minus = 0

An error symbol is charged to the objective at the weight of the priority, which is what makes the
constraint soft.  Last, the row is negated if its constant is negative: an equation to zero may be
read from either side, and this side gives a restricted subject a feasible row.
-/
import IncrementalSimplex.Solver

namespace IncrementalSimplex

/-- A constraint as a row, before it is in the tableau: the solver with the new symbols and their
costs, the row that is to equal zero, and the tag. -/
structure Encoding (α : Type) where
  solver : Solver α
  row : Row α
  tag : Tag

namespace Solver

variable {α : Type} [Scalar α]

/-! ## 1. Terms -/

/-- Add a term to a row over the non-basic symbols.  A coefficient near zero is passed over, and
so is its variable. -/
def encodeTerm (acc : Solver α × Row α) (t : Term α) : Solver α × Row α :=
  if nearZero t.coefficient then acc
  else
    let (s, x) := acc.1.symbolOf t.var
    match s.tableau.rows.get? x with
    | some basic => (s, acc.2.addRow basic t.coefficient)
    | none => (s, acc.2.addCell x t.coefficient)

/-- The terms of an expression, one after the other, on top of its constant. -/
def encodeTerms (s : Solver α) (e : Expression α) : Solver α × Row α :=
  e.terms.foldl encodeTerm (s, .ofConstant e.constant)

/-! ## 2. Relations -/

/-- Charge an error symbol to the objective. -/
def charge (s : Solver α) (error : Symbol) (p : Priority) : Solver α :=
  { s with tableau :=
    { s.tableau with objective := s.tableau.objective.addCell error p.weight } }

/-- An inequality: a slack with coefficient `unit` and, if it is soft, an error against it. -/
def encodeInequality (s : Solver α) (row : Row α) (unit against : α) (p : Priority) :
    Encoding α :=
  let (s, slack) := s.newSymbol .slack
  let row := row.addCell slack unit
  if p.isRequired then ⟨s, row, { marker := slack }⟩
  else
    let (s, error) := s.newSymbol .error
    ⟨s.charge error p, row.addCell error against, { marker := slack, other := error }⟩

/-- An equality: a dummy if it is required, and two errors if it is soft. -/
def encodeEquality (s : Solver α) (row : Row α) (p : Priority) : Encoding α :=
  if p.isRequired then
    let (s, dummy) := s.newSymbol .dummy
    ⟨s, row.addCell dummy 1, { marker := dummy }⟩
  else
    let (s, plus) := s.newSymbol .error
    let (s, minus) := s.newSymbol .error
    ⟨(s.charge plus p).charge minus p, (row.addCell plus (-1)).addCell minus 1,
      { marker := plus, other := minus }⟩

/-- The symbols of a relation. -/
def encodeRelation (s : Solver α) (row : Row α) (p : Priority) : Relation → Encoding α
  | .atMost => s.encodeInequality row 1 (-1) p
  | .atLeast => s.encodeInequality row (-1) 1 p
  | .equal => s.encodeEquality row p

/-- **A constraint as a row that is to equal zero**, with a constant that is not negative. -/
def encode (s : Solver α) (c : Constraint α) : Encoding α :=
  let (s, row) := s.encodeTerms c.expression
  let e := s.encodeRelation row c.priority c.relation
  if e.row.constant < 0 then { e with row := e.row.negate } else e

end Solver

namespace Encoding

variable {α : Type} [Scalar α]

/-! ## 3. Where the row goes -/

/-- How a row gets into the tableau. -/
inductive Placement where
  /-- Solved for one of its symbols. -/
  | basic (subject : Symbol)
  /-- Through an artificial symbol. -/
  | artificial
  /-- Not at all: it contradicts the required equalities. -/
  | conflict
  deriving DecidableEq

/-- The symbol to solve the row for: the first external one, else the marker or the other symbol
of the tag if it is pivotable and its coefficient is negative, so that solving for it keeps the
constant feasible. -/
def subject? (e : Encoding α) : Option Symbol :=
  e.row.firstExternal?.or <|
    [e.tag.marker, e.tag.other].find? fun x =>
      x.isPivotable && decide (e.row.coefficient x < 0)

/-- **Where the row goes.**  A row of dummies alone without a subject says that a combination of
required equalities is a number: if the number is zero the row is redundant and may be kept under
its marker, and if not it is in conflict with them. -/
def placement (e : Encoding α) : Placement :=
  match e.subject? with
  | some x => .basic x
  | none =>
    if e.row.allDummies then
      if nearZero e.row.constant then .basic e.tag.marker else .conflict
    else .artificial

end Encoding

end IncrementalSimplex
