/-
# Passes: primal, dual and phase one

A pass carries out pivots until its goal is reached.

* `minimize` is the PRIMAL pass: while an objective has a negative cost, that symbol enters.
* `repair` is the DUAL pass: it takes symbols off the queue, skips those that need no repair, and
  exchanges the others.
* `phaseOne` inserts a row for which no subject was found, through an artificial symbol that the
  primal pass drives to zero.

**Every pass has a budget of pivots**, and recursion is on the budget: that is why it ends, whatever
the arithmetic.  The budget is looked at only when another pivot is called for, so a limit of `n`
allows exactly `n` pivots and is not reported when `n` were enough.  In the primal pass the test
stands before the leaving symbol is looked for, in the dual pass after the entering one is found.

A `Pass` records the tableau it ends with, also when it fails, and the pivots it made, in order.
-/
import IncrementalSimplex.Failure
import IncrementalSimplex.Tableau.Choice

namespace IncrementalSimplex

/-! ## 1. The record of a pass -/

/-- What a pass did and how it ended. -/
structure Pass (α β : Type) where
  tableau : Tableau α
  outcome : Except Halt β
  /-- The pivots made, in order. -/
  pivots : List Tableau.Pivot := []
  /-- How many entries were taken off the queue. -/
  popped : Nat := 0

namespace Pass

variable {α β : Type}

/-- The pass is at its goal. -/
def done (t : Tableau α) (b : β) : Pass α β := ⟨t, .ok b, [], 0⟩

/-- The pass cannot go on. -/
def stopped (t : Tableau α) (h : Halt) : Pass α β := ⟨t, .error h, [], 0⟩

/-- The pass is refused. -/
def refused (t : Tableau α) (e : SolverError) : Pass α β := .stopped t (.refused e)

/-- A pass that began with one more pivot. -/
def after (p : Tableau.Pivot) (rest : Pass α β) : Pass α β :=
  { rest with pivots := p :: rest.pivots }

/-- A pass that began by taking entries off the queue. -/
def popping (n : Nat) (rest : Pass α β) : Pass α β := { rest with popped := n + rest.popped }

end Pass

/-- How a failed pivot halts a pass. -/
def Tableau.PivotFault.halt (p : Tableau.Pivot) : Tableau.PivotFault → Halt
  | noRow => .refused (.internal .leavingRowVanished)
  | noCell => .absentSymbol p.entering

namespace Tableau

variable {α : Type} [Scalar α]

/-! ## 2. The primal pass -/

/-- Which objective a primal pass minimizes. -/
inductive Goal where
  | main
  | artificial
  deriving DecidableEq

/-- The row of an objective. -/
def objectiveOf? (t : Tableau α) : Goal → Option (Row α)
  | .main => some t.objective
  | .artificial => t.artificial

/-- What is left to do at a minimum: that of the main objective drops the queue, whose entries
then count as stale. -/
def atMinimum (t : Tableau α) : Goal → Tableau α
  | .main => { t with infeasible := [] }
  | .artificial => t

/-- The primal pass with a budget of pivots; `limit` is what is reported when it is spent. -/
def minimizeWithin (limit : Nat) (goal : Goal) (budget : Nat) (t : Tableau α) : Pass α Unit :=
  match (t.objectiveOf? goal).map entering? with
  | none => .done t ()
  | some none => .done (t.atMinimum goal) ()
  | some (some entering) =>
    match budget with
    | 0 => .refused t (.iterationLimit limit)
    | budget + 1 =>
      match t.leaving? entering with
      | none => .refused t (.internal .unboundedObjective)
      | some leaving =>
        match t.pivot ⟨entering, leaving⟩ with
        | .error fault => .stopped t (fault.halt ⟨entering, leaving⟩)
        | .ok next => (minimizeWithin limit goal budget next).after ⟨entering, leaving⟩

/-- **The primal pass**, within at most `limit` pivots. -/
def minimize (limit : Nat) (goal : Goal) (t : Tableau α) : Pass α Unit :=
  t.minimizeWithin limit goal limit

/-! ## 3. The dual pass -/

/-- The first queued symbol whose row is there and negative, with that row and the queue below it.
What lies above is stale. -/
def nextInfeasible? (rows : SymbolMap (Row α)) :
    List Symbol → Option (Symbol × Row α × List Symbol)
  | [] => none
  | s :: rest =>
    match rows.get? s with
    | none => nextInfeasible? rows rest
    | some row => if row.constant < 0 then some (s, row, rest) else nextInfeasible? rows rest

/-- The dual pass with a budget of pivots. -/
def repairWithin (limit : Nat) (budget : Nat) (t : Tableau α) : Pass α Unit :=
  match nextInfeasible? t.rows t.infeasible with
  | none => (Pass.done { t with infeasible := [] } ()).popping t.infeasible.length
  | some (leaving, row, rest) =>
    let popped := t.infeasible.length - rest.length
    let t := { t with infeasible := rest }
    match t.dualEntering? row with
    | none => (Pass.refused t (.internal .dualStuck)).popping popped
    | some entering =>
      match budget with
      | 0 => (Pass.refused t (.iterationLimit limit)).popping popped
      | budget + 1 =>
        match t.pivot ⟨entering, leaving⟩ with
        | .error fault => (Pass.stopped t (fault.halt ⟨entering, leaving⟩)).popping popped
        | .ok next =>
          ((repairWithin limit budget next).after ⟨entering, leaving⟩).popping popped

/-- **The dual pass** over the queue, within at most `limit` pivots. -/
def repair (limit : Nat) (t : Tableau α) : Pass α Unit := t.repairWithin limit limit

/-! ## 4. Phase one -/

/-- Take the artificial symbol out again after its pass.  `driven` says whether it reached zero.
A row of its own that is left is exchanged for its first pivotable symbol; without one the row
cannot be kept. -/
def retire (t : Tableau α) (art : Symbol) (driven : Bool) : Pass α Bool :=
  match t.rows.get? art with
  | none => .done (t.dropColumn art) driven
  | some row =>
    let t := t.dropRow art
    if row.cells.size = 0 then .done t driven
    else
      match row.firstPivotable? with
      | none => .done t false
      | some entering =>
        match row.exchange? art entering with
        | none => .stopped t (.absentSymbol entering)
        | some solved => .done ((t.enter entering solved).dropColumn art) driven

/-- **Phase one**: give `row` the artificial symbol `art`, minimize it, and take the symbol out
again.  The outcome tells whether it could be driven to zero. -/
def phaseOne (limit : Nat) (art : Symbol) (row : Row α) (t : Tableau α) : Pass α Bool :=
  let pass := { t.setRow art row with artificial := some row }.minimize limit .artificial
  let driven := pass.tableau.artificial.any fun objective => nearZero objective.constant
  let t := { pass.tableau with artificial := none }
  match pass.outcome with
  | .error h => ⟨t, .error h, pass.pivots, pass.popped⟩
  | .ok () => { t.retire art driven with pivots := pass.pivots }

end Tableau

end IncrementalSimplex
