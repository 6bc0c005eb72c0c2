/-
# Linear expressions

An expression is a constant plus a LIST of terms.  Sums and differences concatenate the lists;
terms over one variable are not merged, and the order in which they were combined is kept.  The
solver folds duplicates only when it encodes a constraint, in that order.

An expression is read in two ways: `Expression.valueAt` at a valuation, which is total, and
`Expression.value?` at a space, which has no value when a variable has no slot.  They agree
wherever the second is defined (`Expression.value?_eq_valueAt`).
-/
import IncrementalSimplex.Space

namespace IncrementalSimplex

/-! ## 1. Terms -/

/-- A variable with a coefficient. -/
structure Term (α : Type) where
  var : Variable
  coefficient : α

namespace Term

variable {α γ : Type} [Scalar α]

/-- The variable itself, with coefficient one. -/
def ofVariable (v : Variable) : Term α := ⟨v, 1⟩

/-- The coefficient times the value of the variable. -/
def valueAt (t : Term α) (ρ : Variable → α) : α := t.coefficient * ρ t.var

/-- The same in a space; `none` when the variable has no slot. -/
def value? (t : Term α) (s : Space α γ) : Option α :=
  (s.value? t.var).map fun x => t.coefficient * x

/-- The term with its coefficient multiplied. -/
def scale (t : Term α) (m : α) : Term α := { t with coefficient := t.coefficient * m }

end Term

/-! ## 2. Expressions -/

/-- A constant plus terms, in the order in which they were combined. -/
structure Expression (α : Type) where
  terms : List (Term α)
  constant : α

namespace Expression

variable {α γ : Type} [Scalar α]

/-- The expression without terms. -/
def ofConstant (c : α) : Expression α := ⟨[], c⟩

/-- One term and the constant zero. -/
def ofTerm (t : Term α) : Expression α := ⟨[t], 0⟩

/-- Whether there are no terms. -/
def isConstant (e : Expression α) : Bool := e.terms.isEmpty

/-- Multiply every coefficient and the constant. -/
def scale (e : Expression α) (m : α) : Expression α := ⟨e.terms.map (·.scale m), e.constant * m⟩

/-- The constant, then the terms added one by one. -/
def valueAt (e : Expression α) (ρ : Variable → α) : α :=
  e.terms.foldl (fun acc t => acc + t.valueAt ρ) e.constant

/-- The same in a space; `none` when some variable has no slot. -/
def value? (e : Expression α) (s : Space α γ) : Option α :=
  e.terms.foldlM (fun acc t => (t.value? s).map (acc + ·)) e.constant

theorem foldlM_value?_eq {s : Space α γ} {ρ : Variable → α} : ∀ (ts : List (Term α)) (acc : α),
    (∀ t ∈ ts, s.value? t.var = some (ρ t.var)) →
      ts.foldlM (fun acc t => (t.value? s).map (acc + ·)) acc =
        some (ts.foldl (fun acc t => acc + t.valueAt ρ) acc)
  | [], _, _ => rfl
  | t :: ts, acc, h => by
    have ht : t.value? s = some (t.valueAt ρ) := by
      simp [Term.value?, Term.valueAt, h t List.mem_cons_self]
    rw [List.foldlM_cons, ht]
    exact foldlM_value?_eq ts (acc + t.valueAt ρ) fun u hu => h u (List.mem_cons_of_mem _ hu)

/-- **In a space that holds its variables, an expression has the value of its valuation.** -/
theorem value?_eq_valueAt {e : Expression α} {s : Space α γ} {ρ : Variable → α}
    (h : ∀ t ∈ e.terms, s.value? t.var = some (ρ t.var)) : e.value? s = some (e.valueAt ρ) :=
  foldlM_value?_eq e.terms e.constant h

end Expression

end IncrementalSimplex
