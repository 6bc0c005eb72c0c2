/-
# The tableau

A tableau maps each BASIC symbol to a row over the others.  Next to the rows it holds the
objective, which prices the violations of soft constraints, and during phase one a second,
ARTIFICIAL objective.

**The queue.**  A row whose symbol is restricted and whose constant is negative is infeasible.
Whenever a substitution leaves such a row behind, its symbol is put on `infeasible`, a stack that
the dual pass works off.  An entry is only a hint: the same symbol may be there twice, and its row
may have been repaired or removed since.  The last entry pushed comes first in the list.

All changes of the basis go through `enter`: put the solved row in place of its symbol
everywhere, then store it.
-/
import IncrementalSimplex.Row

namespace IncrementalSimplex

/-- Rows keyed by their basic symbols, the objectives, and the rows waiting for repair. -/
structure Tableau (α : Type) where
  rows : SymbolMap (Row α)
  objective : Row α
  /-- What phase one minimizes; absent outside it. -/
  artificial : Option (Row α)
  /-- Symbols whose rows went negative, the latest first. -/
  infeasible : List Symbol

namespace Tableau

variable {α : Type} [Scalar α]

/-- No rows, and nothing to pay. -/
def empty : Tableau α := ⟨.empty, .ofConstant 0, none, []⟩

instance : Inhabited (Tableau α) := ⟨empty⟩

/-! ## 1. Small changes -/

/-- Store a row under its basic symbol. -/
def setRow (t : Tableau α) (s : Symbol) (row : Row α) : Tableau α :=
  { t with rows := t.rows.insert s row }

/-- Take a row out. -/
def dropRow (t : Tableau α) (s : Symbol) : Tableau α := { t with rows := t.rows.erase s }

/-- Put a symbol on the queue. -/
def queue (t : Tableau α) (s : Symbol) : Tableau α :=
  { t with infeasible := s :: t.infeasible }

/-- Store a row, and put its symbol on the queue if its constant is negative. -/
def setRowQueued (t : Tableau α) (s : Symbol) (row : Row α) : Tableau α :=
  let t := t.setRow s row
  if row.constant < 0 then t.queue s else t

/-- Drop the cell of a symbol from every row and from the objective. -/
def dropColumn (t : Tableau α) (s : Symbol) : Tableau α :=
  { t with rows := t.rows.map (·.dropCell s), objective := t.objective.dropCell s }

/-- The restricted symbols whose rows have a negative constant, in order. -/
def negativeRows (rows : SymbolMap (Row α)) : List Symbol :=
  (rows.entries.filter fun (s, row) => s.isRestricted && decide (row.constant < 0)).map (·.1)

/-! ## 2. Substitution and pivots -/

/-- **Put a row in place of a symbol**, in every row and in both objectives.  Every restricted
row that is negative afterwards goes on the queue, in symbol order. -/
def substitute (t : Tableau α) (s : Symbol) (row : Row α) : Tableau α :=
  let rows := t.rows.map (·.substitute s row)
  { rows
    objective := t.objective.substitute s row
    artificial := t.artificial.map (·.substitute s row)
    infeasible := (negativeRows rows).reverse ++ t.infeasible }

/-- **Make a symbol basic**, given what it equals. -/
def enter (t : Tableau α) (s : Symbol) (row : Row α) : Tableau α :=
  (t.substitute s row).setRow s row

/-- One exchange of the basis. -/
structure Pivot where
  entering : Symbol
  leaving : Symbol
  deriving DecidableEq

/-- Why a pivot cannot be carried out. -/
inductive PivotFault where
  /-- The leaving symbol has no row. -/
  | noRow
  /-- Its row has no cell for the entering symbol. -/
  | noCell
  deriving DecidableEq

/-- **Make `entering` basic in place of `leaving`.** -/
def pivot (t : Tableau α) (p : Pivot) : Except PivotFault (Tableau α) :=
  match t.rows.get? p.leaving with
  | none => .error .noRow
  | some row =>
    match row.exchange? p.leaving p.entering with
    | none => .error .noCell
    | some solved => .ok ((t.dropRow p.leaving).enter p.entering solved)

/-! ## 3. What the operations do to the rows -/

omit [Scalar α] in
theorem get?_setRow (t : Tableau α) (s u : Symbol) (row : Row α) :
    (t.setRow s row).rows.get? u = if u = s then some row else t.rows.get? u :=
  t.rows.get?_insert s u row

omit [Scalar α] in
theorem get?_dropRow (t : Tableau α) (s u : Symbol) :
    (t.dropRow s).rows.get? u = if u = s then none else t.rows.get? u :=
  t.rows.get?_erase s u

/-- A substitution acts on every row and moves none. -/
theorem get?_substitute (t : Tableau α) (s u : Symbol) (row : Row α) :
    (t.substitute s row).rows.get? u = (t.rows.get? u).map (·.substitute s row) :=
  SymbolMap.get?_map _ _ _

/-- The entering symbol has the solved row, every other one its old row after the substitution. -/
theorem get?_enter (t : Tableau α) (s u : Symbol) (row : Row α) :
    (t.enter s row).rows.get? u =
      if u = s then some row else (t.rows.get? u).map (·.substitute s row) := by
  rw [enter, get?_setRow, get?_substitute]

/-- **A pivot succeeds exactly if the leaving symbol has a row that can be exchanged.** -/
theorem pivot_eq_ok_iff {t u : Tableau α} {p : Pivot} :
    t.pivot p = .ok u ↔ ∃ row solved, t.rows.get? p.leaving = some row ∧
      row.exchange? p.leaving p.entering = some solved ∧
      (t.dropRow p.leaving).enter p.entering solved = u := by
  unfold pivot
  cases hrow : t.rows.get? p.leaving with
  | none => simp
  | some row =>
    cases hsolved : row.exchange? p.leaving p.entering with
    | none => simp [hsolved]
    | some solved => simp [hsolved]

end Tableau

end IncrementalSimplex
