/-
# Formulas: expressions as they are written

A `Formula` is the tree that a caller writes; `Formula.linearize` carries out the algebra and
returns the operand that the tree denotes.  Operands are evaluated LEFT TO RIGHT and the first
error is the answer, so a formula with two faults reports the one that is written first.

Unchecked division by a number (`dividedBy`) multiplies by its reciprocal whatever the number is; the
checked `quotient` of two formulas refuses zero.
-/
import IncrementalSimplex.Operand

namespace IncrementalSimplex

/-- An expression as it is written. -/
inductive Formula (α : Type) where
  /-- A number, a term or an expression, as it stands. -/
  | operand (a : Operand α)
  /-- The same thing, as an expression. -/
  | whole (f : Formula α)
  | sum (f g : Formula α)
  | difference (f g : Formula α)
  | negation (f : Formula α)
  /-- Times a number. -/
  | times (f : Formula α) (c : α)
  /-- Times the reciprocal of a number, which is not checked. -/
  | dividedBy (f : Formula α) (c : α)
  | product (f g : Formula α)
  | quotient (f g : Formula α)

namespace Formula

variable {α : Type} [Scalar α]

/-- **What a formula denotes**, or the first error met on the way. -/
def linearize : Formula α → Except ExpressionError (Operand α)
  | operand a => .ok a
  | whole f => do
    let a ← f.linearize
    return .expression a.toExpression
  | sum f g => do
    let a ← f.linearize
    let b ← g.linearize
    return .expression (a.sum b)
  | difference f g => do
    let a ← f.linearize
    let b ← g.linearize
    return .expression (a.difference b)
  | negation f => do
    let a ← f.linearize
    return .expression (a.toExpression.scale (-1))
  | times f c => do
    let a ← f.linearize
    return .expression (a.toExpression.scale c)
  | dividedBy f c => do
    let a ← f.linearize
    return .expression (a.unscale c)
  | product f g => do
    let a ← f.linearize
    let b ← g.linearize
    return .expression (← a.product b)
  | quotient f g => do
    let a ← f.linearize
    let b ← g.linearize
    return .expression (← a.quotient b)

end Formula

end IncrementalSimplex
