/-
# Operands: what the algebra of expressions combines

An operand is a number, a single term or a whole expression.  The three shapes are kept apart
because they are not combined alike: adding a TERM leaves the constant of the other side alone,
while adding the expression made of that term would add a zero to it, which is not the same on
`-0.0`.

Sums and differences always exist.  A product is linear only if one side has no terms, and a
quotient only if the divisor has none; `ExpressionError` lists the two ways to fail.
-/
import IncrementalSimplex.Expression

namespace IncrementalSimplex

/-- Why two operands have no linear product or quotient. -/
inductive ExpressionError where
  /-- Both sides of a product, or the divisor, have terms. -/
  | nonLinear
  /-- The divisor has no terms and is zero. -/
  | divisionByZero
  deriving DecidableEq

/-- The text of the error. -/
def ExpressionError.message : ExpressionError → String
  | nonLinear => "Product of two non-constant members is not linear"
  | divisionByZero => "Division by a zero constant"

/-- A number, a term or an expression. -/
inductive Operand (α : Type) where
  | constant (c : α)
  | term (t : Term α)
  | expression (e : Expression α)

namespace Operand

variable {α γ : Type} [Scalar α]

/-! ## 1. Reading an operand -/

/-- A variable, as the term with coefficient one. -/
def ofVariable (v : Variable) : Operand α := .term (.ofVariable v)

/-- Whether the operand has no variable part. -/
def isConstant : Operand α → Bool
  | constant _ => true
  | term _ => false
  | expression e => e.isConstant

/-- The number that an operand without a variable part stands for. -/
def constantValue? : Operand α → Option α
  | constant c => some c
  | term _ => none
  | expression e => if e.isConstant then some e.constant else none

/-- The value in a space; `none` when some variable has no slot. -/
def value? (s : Space α γ) : Operand α → Option α
  | constant c => some c
  | term t => t.value? s
  | expression e => e.value? s

/-- The operand as an expression. -/
def toExpression : Operand α → Expression α
  | constant c => .ofConstant c
  | term t => .ofTerm t
  | expression e => e

/-! ## 2. Combining operands -/

/-- The sum: terms of the left side first. -/
def sum (a b : Operand α) : Expression α :=
  let e := a.toExpression
  match b with
  | constant c => { e with constant := e.constant + c }
  | term t => { e with terms := e.terms ++ [t] }
  | expression f => ⟨e.terms ++ f.terms, e.constant + f.constant⟩

/-- The difference: terms of the right side are multiplied by `-1`, its constant is subtracted. -/
def difference (a b : Operand α) : Expression α :=
  let e := a.toExpression
  match b with
  | constant c => { e with constant := e.constant - c }
  | term t => { e with terms := e.terms ++ [t.scale (-1)] }
  | expression f => ⟨e.terms ++ f.terms.map (·.scale (-1)), e.constant - f.constant⟩

/-- **The product**: a side without terms multiplies the other; the left side is looked at
first. -/
def product (a b : Operand α) : Except ExpressionError (Expression α) :=
  match a.constantValue? with
  | some m => .ok (b.toExpression.scale m)
  | none =>
    match b.constantValue? with
    | some m => .ok (a.toExpression.scale m)
    | none => .error .nonLinear

/-- Multiply by the reciprocal of a number, zero or not. -/
def unscale (a : Operand α) (c : α) : Expression α := a.toExpression.scale (1 / c)

/-- **The quotient**: the divisor must be a number, and not zero. -/
def quotient (a b : Operand α) : Except ExpressionError (Expression α) :=
  match b.constantValue? with
  | none => .error .nonLinear
  | some c => if c == 0 then .error .divisionByZero else .ok (a.unscale c)

end Operand

end IncrementalSimplex
