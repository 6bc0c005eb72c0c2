/-
# Choices: which symbol enters and which one leaves

Every choice of the passes is the FIRST symbol, in symbol order, that wins.  For the entering
symbol of a primal pass that is the first negative cost.  The others are decided by a ratio test:
the least ratio wins, strictly, so of equal ratios the first one stands.

A ratio test starts from the ceiling of the arithmetic and not from nothing: a candidate whose
ratio does not lie below it is no candidate (`RatioTest.offer`).
-/
import IncrementalSimplex.Tableau

namespace IncrementalSimplex

/-! ## 1. The ratio test -/

namespace RatioTest

variable {α : Type} [Scalar α]

/-- The better of the best candidate so far and a new one. -/
def offer (best : Option (α × Symbol)) (candidate : α × Symbol) : Option (α × Symbol) :=
  match best with
  | none => if belowCeiling candidate.1 then some candidate else none
  | some b => if candidate.1 < b.1 then some candidate else some b

/-- **The first symbol with the least ratio below the ceiling.** -/
def least? (candidates : List (α × Symbol)) : Option Symbol :=
  (candidates.foldl offer none).map (·.2)

end RatioTest

namespace Tableau

variable {α : Type} [Scalar α]

/-! ## 2. Primal choices -/

/-- The first symbol, dummies apart, whose cost in an objective is negative. -/
def entering? (objective : Row α) : Option Symbol :=
  (objective.cells.entries.find? fun (s, c) => !s.isDummy && decide (c < 0)).map (·.1)

/-- How far a symbol may rise before a restricted row reaches zero, for each of the given rows
that falls with it. -/
def fallingRatios (rows : List (Symbol × Row α)) (rising : Symbol) : List (α × Symbol) :=
  rows.filterMap fun (s, row) =>
    let c := row.coefficient rising
    if s.isRestricted && decide (c < 0) then some (-row.constant / c, s) else none

/-- **The leaving symbol of a primal pivot**: the restricted row that reaches zero first. -/
def leaving? (t : Tableau α) (entering : Symbol) : Option Symbol :=
  RatioTest.least? (fallingRatios t.rows.entries entering)

/-! ## 3. The dual choice -/

/-- **The entering symbol of a dual pivot** on a row: of the cells that can raise it, dummies
apart, the one whose cost per unit is least. -/
def dualEntering? (t : Tableau α) (row : Row α) : Option Symbol :=
  RatioTest.least? <| row.cells.entries.filterMap fun (s, c) =>
    if !s.isDummy && decide (0 < c) then some (t.objective.coefficient s / c, s) else none

/-! ## 4. Making room for a removal -/

/-- The ratios of the given restricted rows that rise with a symbol, or whose coefficient does not
compare with zero. -/
def risingRatios (rows : List (Symbol × Row α)) (marker : Symbol) : List (α × Symbol) :=
  rows.filterMap fun (s, row) =>
    let c := row.coefficient marker
    if s.isRestricted && !decide (c < 0) then some (row.constant / c, s) else none

/-- **The row to exchange with a marker that is to be removed.**  Only rows in which the marker
has a coefficient other than zero count: of the restricted ones that fall with it the first to
reach zero, else the same of those that rise with it, else the first external row. -/
def leavingForMarker? (t : Tableau α) (marker : Symbol) : Option Symbol :=
  let rows := t.rows.entries.filter fun (_, row) => row.coefficient marker != 0
  (RatioTest.least? (fallingRatios rows marker)).or <|
    (RatioTest.least? (risingRatios rows marker)).or <|
      (rows.map (·.1)).find? Symbol.isExternal

end Tableau

end IncrementalSimplex
