/-
# Scalars: the arithmetic the solver runs on

Everything in the library that touches a number is written over a type `α` with `Scalar α`.
The class asks for operations and for NO LAWS.  That is deliberate: the arithmetic that runs is
IEEE binary64, where addition is not associative, `x - x` need not be zero and a NaN is below
nothing and equal to nothing, so a law assumed here would be a law the program does not have.
A theorem that holds "whatever the arithmetic" is a theorem over an arbitrary `Scalar α`; one
that needs the ordered field takes `α` to be a rational reading (`Scalar/Rational.lean`).

Three readings are in use:

* `Float`: binary64 with the tolerance `1e-8`, the one that is compiled (below);
* `Rat`: exact, only `0` is near zero, and a ratio test has no ceiling;
* `Tolerant`: the rationals with the tolerance of the binary64 reading.
-/

namespace IncrementalSimplex

/-! ## 1. The class -/

/-- What the solver asks of its numbers: the four operations, negation, `0`, `1`, the
integers, a decidable order, a test for equality (which need not be reflexive) and the two tests
that depend on the precision. -/
class Scalar (α : Type) where
  add : α → α → α
  sub : α → α → α
  mul : α → α → α
  div : α → α → α
  neg : α → α
  zero : α
  one : α
  ofInt : Int → α
  lt : α → α → Prop
  /-- The order is decided, so that the solver can branch on it. -/
  decidableLT : ∀ x y, Decidable (lt x y)
  beq : α → α → Bool
  /-- A cell that is near zero is not stored. -/
  nearZero : α → Bool
  /-- A ratio at or above the ceiling never wins a ratio test. -/
  belowCeiling : α → Bool

export Scalar (nearZero belowCeiling)

/-! The usual notation.  A concrete number type keeps its own operations: these instances are
tried last, so they are found where a type is known by its `Scalar` alone. -/

namespace Scalar

variable {α : Type} [Scalar α]

instance (priority := low) toAdd : Add α := ⟨Scalar.add⟩
instance (priority := low) toSub : Sub α := ⟨Scalar.sub⟩
instance (priority := low) toMul : Mul α := ⟨Scalar.mul⟩
instance (priority := low) toDiv : Div α := ⟨Scalar.div⟩
instance (priority := low) toNeg : Neg α := ⟨Scalar.neg⟩
instance (priority := low) toZero : Zero α := ⟨Scalar.zero⟩
instance (priority := low) toOne : One α := ⟨Scalar.one⟩
instance (priority := low) toIntCast : IntCast α := ⟨Scalar.ofInt⟩
instance (priority := low) toLT : LT α := ⟨Scalar.lt⟩
instance (priority := low) toBEq : BEq α := ⟨Scalar.beq⟩
instance (priority := low) toDecidableLT : DecidableLT α := Scalar.decidableLT

end Scalar

/-! ## 2. Binary64 -/

/-- **The compiled reading.**  Each operation is one correctly rounded operation on doubles.
The tolerance is `1e-8`, strictly, so a NaN is not near zero; the ceiling is the largest finite
double, so an infinite ratio loses to no ratio at all. -/
instance : Scalar Float where
  add := Float.add
  sub := Float.sub
  mul := Float.mul
  div := Float.div
  neg := Float.neg
  zero := 0.0
  one := 1.0
  ofInt := Float.ofInt
  lt x y := x < y
  decidableLT := Float.decLt
  beq := Float.beq
  nearZero x := x.abs < 1e-8
  belowCeiling r := r < 1.7976931348623157e308

end IncrementalSimplex
