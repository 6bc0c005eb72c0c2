/-
# The rational readings

The same solver over the rationals, where its arithmetic is that of an ordered field.  `Rat`
itself is the EXACT reading: a cell is dropped only when it is zero and a ratio test starts from
plus infinity.  `Tolerant` keeps the cleanup of the compiled reading, so that what the tolerance
does can be told apart from what rounding does.

The instances name the operations of `Rat` one by one, so that they mean the same whichever
algebraic structure on `Rat` is in scope.
-/
import IncrementalSimplex.Scalar

namespace IncrementalSimplex

/-- **The exact reading.** -/
instance : Scalar Rat where
  add := Rat.add
  sub := Rat.sub
  mul := Rat.mul
  div := Rat.div
  neg := Rat.neg
  zero := 0
  one := 1
  ofInt := Rat.ofInt
  lt := Rat.instLT.lt
  decidableLT := Rat.instDecidableLt
  beq p q := decide (p = q)
  nearZero q := decide (q = 0)
  belowCeiling _ := true

/-- The rationals read with a tolerance. -/
def Tolerant : Type := Rat

/-- The tolerance below which a cell is not stored: `10⁻⁸`. -/
def tolerance : Rat := mkRat 1 100000000

/-- Strictly between `-10⁻⁸` and `10⁻⁸`. -/
def withinTolerance (q : Rat) : Bool :=
  decide (-tolerance < q) && decide (q < tolerance)

/-- **The tolerant reading**: exact operations, and what lies within the tolerance is near
zero. -/
instance : Scalar Tolerant where
  add := Rat.add
  sub := Rat.sub
  mul := Rat.mul
  div := Rat.div
  neg := Rat.neg
  zero := (0 : Rat)
  one := (1 : Rat)
  ofInt := Rat.ofInt
  lt := Rat.instLT.lt
  decidableLT := Rat.instDecidableLt
  beq p q := @decide _ (instDecidableEqRat p q)
  nearZero := withinTolerance
  belowCeiling _ := true

end IncrementalSimplex
