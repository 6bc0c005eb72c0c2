/-
# Rows: affine forms over symbols

A row is a constant and a finite map of coefficients, its CELLS.  Under a basic symbol `b` of the
tableau it is read as the equation

    b = constant + the sum of coefficient * symbol over the cells

and every change of the tableau is made of the few operations below.  Two things about them show
in the results and are fixed here:

* **sums are formed in symbol order**, one cell after the other, and a product is rounded before
  it is added;
* **a cell that cancels is dropped.**  Adding to a cell stores the sum unless it is near zero
  (`Row.addCell`), and that is the only place where a cell disappears by cancellation: scaling a
  row leaves small cells alone.

Solving a row for a symbol without a cell has no answer; `solveFor?` says so with `none`.
-/
import IncrementalSimplex.Scalar
import IncrementalSimplex.SymbolMap

namespace IncrementalSimplex

/-- A constant plus coefficients of symbols. -/
structure Row (α : Type) where
  constant : α
  cells : SymbolMap α

namespace Row

variable {α : Type} [Scalar α]

/-! ## 1. Reading a row -/

/-- The row without cells. -/
def ofConstant (c : α) : Row α := ⟨c, .empty⟩

instance : Inhabited (Row α) := ⟨ofConstant 0⟩

/-- The coefficient of a symbol, zero when it has no cell. -/
def coefficient (r : Row α) (s : Symbol) : α := (r.cells.get? s).getD 0

/-- The first symbol of the row that may take the place of an artificial one. -/
def firstPivotable? (r : Row α) : Option Symbol := r.cells.keys.find? Symbol.isPivotable

/-- The first symbol of the row that stands for a variable. -/
def firstExternal? (r : Row α) : Option Symbol := r.cells.keys.find? Symbol.isExternal

/-- Whether all symbols of the row are dummies; true of a row without cells. -/
def allDummies (r : Row α) : Bool := r.cells.keys.all Symbol.isDummy

/-- Same symbols, and equal numbers as numbers compare: a NaN differs from itself and the two
zeros are equal. -/
def sameNumbers (r t : Row α) : Bool :=
  r.constant == t.constant && r.cells.keys == t.cells.keys &&
    (r.cells.entries.zip t.cells.entries).all (fun (a, b) => a.2 == b.2)

/-! ## 2. Adding to a row -/

/-- Add to the constant. -/
def addConstant (r : Row α) (c : α) : Row α := { r with constant := r.constant + c }

/-- **Add to one cell.**  An absent cell counts as zero, and a sum near zero is not stored. -/
def addCell (r : Row α) (s : Symbol) (c : α) : Row α :=
  let sum := r.coefficient s + c
  { r with cells := if nearZero sum then r.cells.erase s else r.cells.insert s sum }

/-- **Add a multiple of another row**: the constant first, then its cells in order. -/
def addRow (r t : Row α) (c : α) : Row α :=
  t.cells.entries.foldl (fun acc e => acc.addCell e.1 (e.2 * c))
    (r.addConstant (t.constant * c))

/-- Drop the cell of a symbol, whatever it holds. -/
def dropCell (r : Row α) (s : Symbol) : Row α := { r with cells := r.cells.erase s }

/-! ## 3. Solving and substituting -/

/-- Negate the constant and every cell. -/
def negate (r : Row α) : Row α := ⟨-r.constant, r.cells.map (fun c => -c)⟩

/-- Multiply the constant and every cell. -/
def scale (r : Row α) (m : α) : Row α := ⟨r.constant * m, r.cells.map (fun c => c * m)⟩

/-- **Solve `0 = row` for one of its symbols**: what the symbol equals in terms of the rest.
`none` when the symbol has no cell. -/
def solveFor? (r : Row α) (s : Symbol) : Option (Row α) :=
  (r.cells.get? s).map fun c => (r.dropCell s).scale (-1 / c)

/-- **Exchange**: from `leaving = row`, what `entering` equals in terms of `leaving` and the
rest. -/
def exchange? (r : Row α) (leaving entering : Symbol) : Option (Row α) :=
  (r.addCell leaving (-1)).solveFor? entering

/-- **Put a row in place of a symbol.**  A row without the symbol stays as it is. -/
def substitute (r : Row α) (s : Symbol) (t : Row α) : Row α :=
  match r.cells.get? s with
  | some c => (r.dropCell s).addRow t c
  | none => r

/-! ## 4. What the operations do to the cells

`addCell` is the only one of them that can store or drop a cell by what it holds. -/

omit [Scalar α] in
@[simp] theorem get?_dropCell (r : Row α) (s t : Symbol) :
    (r.dropCell s).cells.get? t = if t = s then none else r.cells.get? t :=
  r.cells.get?_erase s t

@[simp] theorem get?_negate (r : Row α) (s : Symbol) :
    r.negate.cells.get? s = (r.cells.get? s).map (fun c => -c) :=
  SymbolMap.get?_map _ _ _

@[simp] theorem get?_scale (r : Row α) (m : α) (s : Symbol) :
    (r.scale m).cells.get? s = (r.cells.get? s).map (fun c => c * m) :=
  SymbolMap.get?_map _ _ _

/-- **A cell after an addition**: gone if it cancelled, else the sum. -/
theorem get?_addCell_self (r : Row α) (s : Symbol) (c : α) :
    (r.addCell s c).cells.get? s =
      if nearZero (r.coefficient s + c) then none else some (r.coefficient s + c) := by
  unfold addCell
  dsimp only
  split
  · simp [SymbolMap.get?_erase]
  · simp [SymbolMap.get?_insert]

/-- An addition to one cell leaves the others alone. -/
theorem get?_addCell_of_ne (r : Row α) {s t : Symbol} (c : α) (h : t ≠ s) :
    (r.addCell s c).cells.get? t = r.cells.get? t := by
  unfold addCell
  dsimp only
  split
  · simp [SymbolMap.get?_erase, h]
  · simp [SymbolMap.get?_insert, h]

@[simp] theorem constant_addCell (r : Row α) (s : Symbol) (c : α) :
    (r.addCell s c).constant = r.constant := rfl

/-- A row can be solved for its own symbols and for no others. -/
theorem solveFor?_isSome (r : Row α) (s : Symbol) :
    (r.solveFor? s).isSome = r.cells.contains s := by
  simp [solveFor?, SymbolMap.contains]

/-- A row without a symbol does not change when the symbol is replaced. -/
theorem substitute_of_absent {r : Row α} {s : Symbol} (h : r.cells.get? s = none) (t : Row α) :
    r.substitute s t = r := by
  simp [substitute, h]

end Row

end IncrementalSimplex
