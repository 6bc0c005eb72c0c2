/-
# Reports: the solver's state, listed

A report lists what the solver holds between two calls, all of it in the order that its answers
depend on: the registries by arrival, the rows by symbol, the queue from its bottom to its top.

**Signed indices.**  A report writes a variable as a whole number of 64 bits with a sign.  A handle
may be formed for any index of 64 bits without one, and the solver treats them all alike; but from
`2⁶³` on there is no signed number for the index.  One such variable, met or under edit, and there
is no report at all.

`report?_eq_none_iff` says so: nothing else stands in the way of a report.
-/
import IncrementalSimplex.Solver

namespace IncrementalSimplex

/-- Whether the index is a whole number of 64 bits with a sign: below `2⁶³`. -/
def Variable.hasSignedIndex (v : Variable) : Bool := decide (v.index < 9223372036854775808)

/-- What the solver holds, in lists. -/
structure Report (α : Type) where
  counter : Nat
  constraints : List (ConstraintId × ConstraintRecord)
  rows : List (Symbol × Row α)
  symbols : List (Variable × Symbol)
  edits : List (Variable × Edit α)
  objective : Row α
  /-- The symbols whose rows wait for repair, the latest last. -/
  pending : List Symbol

namespace Solver

variable {α : Type}

/-- The variables that a report lists: those met, then those under edit. -/
def listedVariables (s : Solver α) : List Variable := s.symbols.keys ++ s.edits.keys

/-- **The state in lists**, or nothing when an index has no signed number. -/
def report? (s : Solver α) : Option (Report α) :=
  if s.listedVariables.all Variable.hasSignedIndex then
    some
      { counter := s.counter
        constraints := s.constraints.entries
        rows := s.tableau.rows.entries
        symbols := s.symbols.entries
        edits := s.edits.entries
        objective := s.tableau.objective
        pending := s.tableau.infeasible.reverse }
  else none

/-- **There is no report exactly if some listed variable has an index from `2⁶³` on.** -/
theorem report?_eq_none_iff {s : Solver α} :
    s.report? = none ↔ ∃ v ∈ s.listedVariables, 9223372036854775808 ≤ v.index := by
  simp [report?, Variable.hasSignedIndex]

end Solver

end IncrementalSimplex
