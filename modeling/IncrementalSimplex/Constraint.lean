/-
# Constraints

A constraint says that an expression is equal to zero, at most zero or at least zero, and how
much that matters.  At or above `Priority.required` it must hold; below, the solver may break it
at a price, which is the priority times the amount by which it is broken.

**Identity is not structure.**  A constraint carries the number under which it was made.  Copies
share it, also copies with another priority; two constraints made separately never do, however
alike.  The solver knows a constraint by that number alone.
-/
import IncrementalSimplex.Operand

namespace IncrementalSimplex

/-! ## 1. Relations -/

/-- How the expression of a constraint stands to zero. -/
inductive Relation where
  | equal
  | atMost
  | atLeast
  deriving DecidableEq

/-- The relation as it is written between two sides. -/
def Relation.text : Relation → String
  | equal => "=="
  | atMost => "<="
  | atLeast => ">="

/-! ## 2. Priorities -/

/-- How much a constraint matters. -/
structure Priority where
  value : Int
  deriving DecidableEq

namespace Priority

def required : Priority := ⟨1000000000⟩
def strong : Priority := ⟨1000000⟩
def medium : Priority := ⟨1000⟩
def weak : Priority := ⟨1⟩

instance : Inhabited Priority := ⟨required⟩

instance : LE Priority := ⟨fun p q => p.value ≤ q.value⟩

instance : DecidableLE Priority := fun p q => inferInstanceAs (Decidable (p.value ≤ q.value))

/-- Whether a constraint of this priority must hold. -/
def isRequired (p : Priority) : Bool := decide (required ≤ p)

/-- Whether a priority is below every price: such a constraint is not accepted. -/
def isNegative (p : Priority) : Bool := decide (p.value < 0)

/-- The price of breaking a constraint by one. -/
def weight {α : Type} [Scalar α] (p : Priority) : α := (p.value : α)

/-- The four named priorities by name, the others by number. -/
def text (p : Priority) : String :=
  if p = required then "required"
  else if p = strong then "strong"
  else if p = medium then "medium"
  else if p = weak then "weak"
  else toString p.value

end Priority

/-! ## 3. Constraints -/

/-- The number under which a constraint was made. -/
structure ConstraintId where
  serial : Nat
  deriving DecidableEq

/-- The number after a hash sign. -/
def ConstraintId.text (id : ConstraintId) : String := "#" ++ toString id.serial

/-- An expression in a relation to zero. -/
structure Constraint (α : Type) where
  id : ConstraintId
  expression : Expression α
  relation : Relation
  priority : Priority := .required

namespace Constraint

variable {α : Type} [Scalar α]

/-- Two operands in a relation, as their difference in that relation to zero. -/
def relate (id : ConstraintId) (a : Operand α) (r : Relation) (b : Operand α) : Constraint α :=
  { id, expression := a.difference b, relation := r }

/-- The same constraint with another priority. -/
def withPriority (c : Constraint α) (p : Priority) : Constraint α := { c with priority := p }

end Constraint

end IncrementalSimplex
