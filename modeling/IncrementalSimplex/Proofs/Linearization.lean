/-
# What a formula denotes

A caller writes a tree.  `Formula.linearize` makes a constant and a list of terms of it, and the
solver never sees the tree: a sign that is lost here makes another constraint, and nothing later can
tell.

`Formula.evaluate` is the arithmetic that the tree says, at a valuation of its variables.  It goes
from left to right and works with numbers only, and it has the two errors where the tree has them.
**Linearizing commutes with it** (`Formula.linearized`): if the tree has a value, the operand that
it denotes has that value; if it has an error, linearizing ends with the same.

**Why the errors can be read off the tree.**  A product needs a side without terms, and linearizing
never loses a term: sums concatenate the lists, and a coefficient may become zero, but its term
stays.  So an operand has the variables of its tree, in the order in which they are written
(`Formula.exists_linearize`), and it is free of terms just if no variable is written in the tree.

**Division by a number** (`Formula.dividedBy`) is not checked.  It multiplies by the reciprocal, and
what that is for zero is left to the arithmetic; the exact reading takes it to be zero, in the
operand as in the tree.
-/
import Mathlib.Algebra.Order.Field.Rat
import Mathlib.Algebra.BigOperators.Group.List.Basic
import Mathlib.Tactic.Linarith
import Mathlib.Tactic.Ring
import IncrementalSimplex.Scalar.Rational
import IncrementalSimplex.Workspace

namespace IncrementalSimplex

/-! ## 1. The variables of a tree -/

section Variables

variable {α : Type}

/-- The variables of the terms, in order. -/
def Expression.vars (e : Expression α) : List Variable := e.terms.map (·.var)

def Operand.vars : Operand α → List Variable
  | .constant _ => []
  | .term t => [t.var]
  | .expression e => e.vars

/-- **The variables of a tree**, as they are written from left to right. -/
def Formula.vars : Formula α → List Variable
  | .operand a => a.vars
  | .whole f | .negation f | .times f _ | .dividedBy f _ => f.vars
  | .sum f g | .difference f g | .product f g | .quotient f g => f.vars ++ g.vars

/-- No variable is written in the tree. -/
def Formula.termFree (f : Formula α) : Bool := f.vars.isEmpty

variable [Scalar α]

/-! Every operation concatenates the terms, or keeps them. -/

@[simp] theorem Expression.vars_scale (e : Expression α) (m : α) :
    (e.scale m).vars = e.vars := by
  simp [vars, scale, Term.scale]

namespace Operand

@[simp] theorem vars_toExpression (a : Operand α) :
    a.toExpression.vars = a.vars := by
  cases a <;> rfl

@[simp] theorem vars_sum (a b : Operand α) :
    (a.sum b).vars = a.vars ++ b.vars := by
  rw [← vars_toExpression a]
  cases b <;> simp [sum, Expression.vars, vars]

@[simp] theorem vars_difference (a b : Operand α) :
    (a.difference b).vars = a.vars ++ b.vars := by
  rw [← vars_toExpression a]
  cases b <;> simp [difference, Expression.vars, vars, Term.scale]

end Operand

end Variables

/-! ## 2. The value of an operand -/

namespace Expression

theorem foldl_valueAt (ρ : Variable → ℚ) (ts : List (Term ℚ)) (acc : ℚ) :
    ts.foldl (fun acc t => acc + t.valueAt ρ) acc =
      acc + (ts.map fun t => t.coefficient * ρ t.var).sum := by
  induction ts generalizing acc with
  | nil => simp
  | cons t ts ih =>
    rw [List.foldl_cons, ih, List.map_cons, List.sum_cons, Term.valueAt]
    ring

/-- The constant and the terms. -/
theorem valueAt_eq (e : Expression ℚ) (ρ : Variable → ℚ) :
    e.valueAt ρ = e.constant + (e.terms.map fun t => t.coefficient * ρ t.var).sum :=
  foldl_valueAt ρ e.terms e.constant

theorem sum_terms_scale (ρ : Variable → ℚ) (m : ℚ) (ts : List (Term ℚ)) :
    ((ts.map (·.scale m)).map fun t => t.coefficient * ρ t.var).sum =
      (ts.map fun t => t.coefficient * ρ t.var).sum * m := by
  induction ts with
  | nil => simp
  | cons t ts ih =>
    simp only [List.map_cons, List.sum_cons, ih]
    show t.coefficient * m * ρ t.var + _ = _
    ring

theorem valueAt_scale (e : Expression ℚ) (m : ℚ) (ρ : Variable → ℚ) :
    (e.scale m).valueAt ρ = e.valueAt ρ * m := by
  rw [valueAt_eq, valueAt_eq, add_mul, ← sum_terms_scale]
  rfl

end Expression

namespace Operand

/-- The value at a valuation. -/
def valueAt {α : Type} [Scalar α] (ρ : Variable → α) : Operand α → α
  | .constant c => c
  | .term t => t.valueAt ρ
  | .expression e => e.valueAt ρ

variable {ρ : Variable → ℚ}

@[simp] theorem valueAt_toExpression (a : Operand ℚ) : a.toExpression.valueAt ρ = a.valueAt ρ := by
  cases a with
  | constant c => rfl
  | term t => exact zero_add _
  | expression e => rfl

theorem valueAt_sum (a b : Operand ℚ) : (a.sum b).valueAt ρ = a.valueAt ρ + b.valueAt ρ := by
  rw [← valueAt_toExpression a, Operand.sum.eq_def]
  generalize a.toExpression = e
  cases b with
  | constant c =>
    simp only [Expression.valueAt_eq, valueAt]
    exact add_right_comm _ _ _
  | term t =>
    simp only [Expression.valueAt_eq, valueAt, List.map_append, List.sum_append, List.map_cons,
      List.map_nil, List.sum_cons, List.sum_nil, add_zero, ← add_assoc]
    rfl
  | expression f =>
    simp only [Expression.valueAt_eq, valueAt, List.map_append, List.sum_append]
    exact add_add_add_comm _ _ _ _

theorem valueAt_difference (a b : Operand ℚ) :
    (a.difference b).valueAt ρ = a.valueAt ρ - b.valueAt ρ := by
  rw [← valueAt_toExpression a, Operand.difference.eq_def]
  generalize a.toExpression = e
  cases b with
  | constant c =>
    simp only [Expression.valueAt_eq, valueAt]
    exact sub_add_eq_add_sub _ _ _
  | term t =>
    simp only [Expression.valueAt_eq, valueAt, List.map_append, List.sum_append, List.map_cons,
      List.map_nil, List.sum_cons, List.sum_nil, add_zero]
    show e.constant + (_ + t.coefficient * -1 * ρ t.var) =
      e.constant + _ - t.coefficient * ρ t.var
    ring
  | expression f =>
    simp only [Expression.valueAt_eq, valueAt, List.map_append, List.sum_append,
      Expression.sum_terms_scale ρ (-1)]
    show e.constant - f.constant + (_ + _ * -1) = e.constant + _ - (f.constant + _)
    ring

theorem valueAt_unscale (a : Operand ℚ) (c : ℚ) : (a.unscale c).valueAt ρ = a.valueAt ρ / c := by
  rw [unscale, Expression.valueAt_scale, valueAt_toExpression]
  exact mul_one_div _ _

/-- **An operand without terms is its number.** -/
theorem constantValue?_eq (a : Operand ℚ) (ρ : Variable → ℚ) :
    a.constantValue? = if a.vars.isEmpty then some (a.valueAt ρ) else none := by
  cases a with
  | constant c => rfl
  | term t => rfl
  | expression e =>
    obtain ⟨ts, c⟩ := e
    cases ts <;> rfl

/-- A product by which of its sides has terms. -/
theorem product_eq (a b : Operand ℚ) (ρ : Variable → ℚ) :
    a.product b = if a.vars.isEmpty then .ok (b.toExpression.scale (a.valueAt ρ))
      else if b.vars.isEmpty then .ok (a.toExpression.scale (b.valueAt ρ))
      else .error .nonLinear := by
  rw [product, constantValue?_eq a ρ, constantValue?_eq b ρ]
  cases a.vars.isEmpty <;> cases b.vars.isEmpty <;> rfl

/-- A quotient by its divisor. -/
theorem quotient_eq (a b : Operand ℚ) (ρ : Variable → ℚ) :
    a.quotient b = if b.vars.isEmpty then
      (if b.valueAt ρ = 0 then .error .divisionByZero else .ok (a.unscale (b.valueAt ρ)))
      else .error .nonLinear := by
  rw [quotient, constantValue?_eq b ρ]
  cases b.vars.isEmpty with
  | false => rfl
  | true =>
    by_cases hzero : b.valueAt ρ = 0
    · rw [if_pos rfl, if_pos rfl, if_pos hzero]
      exact if_pos (decide_eq_true hzero)
    · rw [if_pos rfl, if_pos rfl, if_neg hzero]
      exact if_neg (by simpa using hzero)

end Operand

/-! ## 3. The value of a tree -/

namespace Formula

/-- **The arithmetic of a tree**, from left to right.  A product needs a side without variables and a
quotient a divisor without them, which must not be zero. -/
def evaluate (ρ : Variable → ℚ) : Formula ℚ → Except ExpressionError ℚ
  | operand a => .ok (a.valueAt ρ)
  | whole f => f.evaluate ρ
  | sum f g => do
    let x ← f.evaluate ρ
    let y ← g.evaluate ρ
    return x + y
  | difference f g => do
    let x ← f.evaluate ρ
    let y ← g.evaluate ρ
    return x - y
  | negation f => do
    let x ← f.evaluate ρ
    return -x
  | times f c => do
    let x ← f.evaluate ρ
    return x * c
  | dividedBy f c => do
    let x ← f.evaluate ρ
    return x / c
  | product f g => do
    let x ← f.evaluate ρ
    let y ← g.evaluate ρ
    if f.termFree || g.termFree then .ok (x * y) else .error .nonLinear
  | quotient f g => do
    let x ← f.evaluate ρ
    let y ← g.evaluate ρ
    if g.termFree then
      if y = 0 then .error .divisionByZero else .ok (x / y)
    else .error .nonLinear

/-- **What linearizing comes to**: the error of the tree, or an operand with the variables and the
value of the tree. -/
inductive Linearized (ρ : Variable → ℚ) (f : Formula ℚ) : Prop
  | error (e : ExpressionError) (hlin : f.linearize = .error e) (heval : f.evaluate ρ = .error e)
  | ok (a : Operand ℚ) (hlin : f.linearize = .ok a) (heval : f.evaluate ρ = .ok (a.valueAt ρ))
      (hvars : a.vars = f.vars)

namespace Linearized

variable {ρ : Variable → ℚ} {f g t : Formula ℚ}

/-- One side: an operation on expressions that keeps the variables, and one on numbers. -/
theorem unary (ih : Linearized ρ f) (op : Operand ℚ → Expression ℚ) (num : ℚ → ℚ)
    (hlin : t.linearize = f.linearize.map fun a => .expression (op a))
    (heval : t.evaluate ρ = (f.evaluate ρ).map num)
    (hop : ∀ a, (op a).valueAt ρ = num (a.valueAt ρ) ∧ (op a).vars = a.vars)
    (hvars : t.vars = f.vars) : Linearized ρ t := by
  cases ih with
  | error e hl he =>
    rw [hl] at hlin
    rw [he] at heval
    exact .error e hlin heval
  | ok a hl he hv =>
    rw [hl] at hlin
    rw [he] at heval
    obtain ⟨hvalue, hopVars⟩ := hop a
    refine .ok _ hlin (heval.trans (congrArg Except.ok hvalue.symm)) ?_
    exact hopVars.trans (hv.trans hvars.symm)

/-- Two sides, the left one first; the operation may have an error of its own. -/
theorem binary (ihf : Linearized ρ f) (ihg : Linearized ρ g)
    (op : Operand ℚ → Operand ℚ → Except ExpressionError (Expression ℚ))
    (num : ℚ → ℚ → Except ExpressionError ℚ)
    (hlin : t.linearize =
      f.linearize.bind fun a => g.linearize.bind fun b => (op a b).map .expression)
    (heval : t.evaluate ρ =
      (f.evaluate ρ).bind fun x => (g.evaluate ρ).bind fun y => num x y)
    (hop : ∀ a b, a.vars = f.vars → b.vars = g.vars →
      (∃ e, op a b = .error e ∧ num (a.valueAt ρ) (b.valueAt ρ) = .error e) ∨
      ∃ c, op a b = .ok c ∧ num (a.valueAt ρ) (b.valueAt ρ) = .ok (c.valueAt ρ) ∧
        c.vars = a.vars ++ b.vars)
    (hvars : t.vars = f.vars ++ g.vars) : Linearized ρ t := by
  cases ihf with
  | error e hl he =>
    rw [hl] at hlin
    rw [he] at heval
    exact .error e hlin heval
  | ok a hfl hfe hfv =>
    cases ihg with
    | error e hl he =>
      rw [hfl, hl] at hlin
      rw [hfe, he] at heval
      exact .error e hlin heval
    | ok b hgl hge hgv =>
      have hlin' : t.linearize = (op a b).map .expression := by
        rw [hlin, hfl, hgl]
        rfl
      have heval' : t.evaluate ρ = num (a.valueAt ρ) (b.valueAt ρ) := by
        rw [heval, hfe, hge]
        rfl
      rcases hop a b hfv hgv with ⟨e, hopError, hnum⟩ | ⟨c, hopOk, hnum, hc⟩
      · rw [hopError] at hlin'
        exact .error e hlin' (heval'.trans hnum)
      · rw [hopOk] at hlin'
        refine .ok (.expression c) hlin' (heval'.trans hnum) ?_
        rw [hvars, ← hfv, ← hgv]
        exact hc

/-- A product: a side without terms is a number, by which the other side is scaled; the left one is
asked first. -/
theorem product (ihf : Linearized ρ f) (ihg : Linearized ρ g) : Linearized ρ (.product f g) := by
  refine ihf.binary ihg Operand.product (fun x y =>
    if f.termFree || g.termFree then .ok (x * y) else .error .nonLinear) rfl rfl
    (fun a b ha hb => ?_) rfl
  rw [a.product_eq b ρ, termFree, termFree, ← ha, ← hb]
  cases hafree : a.vars.isEmpty with
  | true =>
    -- the left side is a number
    refine .inr ⟨_, rfl, ?_, ?_⟩
    · rw [Expression.valueAt_scale, Operand.valueAt_toExpression, mul_comm]
      rfl
    · rw [Expression.vars_scale, Operand.vars_toExpression, List.isEmpty_iff.mp hafree]
      rfl
  | false =>
    cases hbfree : b.vars.isEmpty with
    | true =>
      refine .inr ⟨_, rfl, ?_, ?_⟩
      · rw [Expression.valueAt_scale, Operand.valueAt_toExpression]
        rfl
      · rw [Expression.vars_scale, Operand.vars_toExpression, List.isEmpty_iff.mp hbfree,
          List.append_nil]
    | false => exact .inl ⟨_, rfl, rfl⟩

/-- A quotient: the divisor has to be a number, and then it has to be other than zero. -/
theorem quotient (ihf : Linearized ρ f) (ihg : Linearized ρ g) :
    Linearized ρ (.quotient f g) := by
  refine ihf.binary ihg Operand.quotient (fun x y =>
    if g.termFree then if y = 0 then .error .divisionByZero else .ok (x / y)
    else .error .nonLinear) rfl rfl (fun a b ha hb => ?_) rfl
  rw [a.quotient_eq b ρ, termFree, ← hb]
  cases hbfree : b.vars.isEmpty with
  | false => exact .inl ⟨_, rfl, rfl⟩
  | true =>
    by_cases hzero : b.valueAt ρ = 0
    · rw [if_pos rfl, if_pos hzero]
      exact .inl ⟨_, rfl, by rw [if_pos rfl, if_pos hzero]⟩
    · rw [if_pos rfl, if_neg hzero]
      refine .inr ⟨_, rfl, ?_, ?_⟩
      · rw [if_pos rfl, if_neg hzero, Operand.valueAt_unscale]
      · rw [Operand.unscale, Expression.vars_scale, Operand.vars_toExpression,
          List.isEmpty_iff.mp hbfree, List.append_nil]

end Linearized

/-- **Every tree is linearized** to its value or its error. -/
theorem linearized (ρ : Variable → ℚ) (f : Formula ℚ) : Linearized ρ f := by
  induction f with
  | operand a => exact .ok a rfl rfl rfl
  | whole f ih =>
    cases ih with
    | error e hlin heval =>
      refine .error e ?_ heval
      rw [linearize, hlin]
      rfl
    | ok a hlin heval hvars =>
      refine .ok (.expression a.toExpression) ?_ ?_ (a.vars_toExpression.trans hvars)
      · rw [linearize, hlin]
        rfl
      · rw [evaluate, heval, Operand.valueAt, Operand.valueAt_toExpression]
  | sum f g ihf ihg =>
    refine ihf.binary ihg (fun a b => .ok (a.sum b)) (fun x y => .ok (x + y)) rfl rfl
      (fun a b _ _ => .inr ⟨_, rfl, ?_, a.vars_sum b⟩) rfl
    rw [Operand.valueAt_sum]
  | difference f g ihf ihg =>
    refine ihf.binary ihg (fun a b => .ok (a.difference b)) (fun x y => .ok (x - y))
      rfl rfl (fun a b _ _ => .inr ⟨_, rfl, ?_, a.vars_difference b⟩) rfl
    rw [Operand.valueAt_difference]
  | negation f ih =>
    refine ih.unary (fun a => a.toExpression.scale (-1)) (fun x => -x) rfl rfl
      (fun a => ⟨?_, ?_⟩) rfl
    · rw [Expression.valueAt_scale, Operand.valueAt_toExpression]
      exact mul_neg_one _
    · simp
  | times f c ih =>
    refine ih.unary (fun a => a.toExpression.scale c) (fun x => x * c) rfl rfl
      (fun a => ⟨?_, ?_⟩) rfl
    · rw [Expression.valueAt_scale, Operand.valueAt_toExpression]
    · simp
  | dividedBy f c ih =>
    refine ih.unary (fun a => a.unscale c) (fun x => x / c) rfl rfl
      (fun a => ⟨a.valueAt_unscale c, ?_⟩) rfl
    simp [Operand.unscale]
  | product f g ihf ihg => exact ihf.product ihg
  | quotient f g ihf ihg => exact ihf.quotient ihg

/-- **The errors are those of the tree.** -/
theorem linearize_eq_error_iff (ρ : Variable → ℚ) {f : Formula ℚ} {e : ExpressionError} :
    f.linearize = .error e ↔ f.evaluate ρ = .error e := by
  cases f.linearized ρ with
  | error e' hlin heval => rw [hlin, heval, Except.error.injEq, Except.error.injEq]
  | ok a hlin heval hvars =>
    rw [hlin, heval]
    exact ⟨nofun, nofun⟩

/-- **The value is that of the tree.** -/
theorem exists_linearize {ρ : Variable → ℚ} {f : Formula ℚ} {x : ℚ} (h : f.evaluate ρ = .ok x) :
    ∃ a, f.linearize = .ok a ∧ a.valueAt ρ = x ∧ a.vars = f.vars := by
  cases f.linearized ρ with
  | error e hlin heval =>
    rw [heval] at h
    cases h
  | ok a hlin heval hvars =>
    rw [heval] at h
    cases h
    exact ⟨a, hlin, rfl, hvars⟩

end Formula

/-! ## 4. In a space -/

section Space

variable {γ : Type}

/-- **In a space that holds its variables an operand has the value of its valuation.** -/
theorem Operand.value?_eq_valueAt {α : Type} [Scalar α] {space : Space α γ} {ρ : Variable → α}
    (a : Operand α) (h : ∀ v ∈ a.vars, space.value? v = some (ρ v)) :
    a.value? space = some (a.valueAt ρ) := by
  cases a with
  | constant c => rfl
  | term t =>
    rw [value?, Term.value?, h t.var List.mem_cons_self]
    rfl
  | expression e => exact Expression.value?_eq_valueAt fun t ht => h t.var (List.mem_map_of_mem ht)

/-- How two numbers stand to each other. -/
def Relation.Holds : Relation → ℚ → ℚ → Prop
  | .equal, x, y => x = y
  | .atMost, x, y => x ≤ y
  | .atLeast, x, y => y ≤ x

instance (r : Relation) (x y : ℚ) : Decidable (r.Holds x y) :=
  match r with
  | .equal => inferInstanceAs (Decidable (x = y))
  | .atMost => inferInstanceAs (Decidable (x ≤ y))
  | .atLeast => inferInstanceAs (Decidable (y ≤ x))

/-- The difference stands to zero as the two numbers stand to each other. -/
theorem Relation.holds_sub_zero (r : Relation) (x y : ℚ) : r.Holds (x - y) 0 ↔ r.Holds x y := by
  cases r with
  | equal => exact sub_eq_zero
  | atMost => exact sub_nonpos
  | atLeast => exact sub_nonneg

namespace Workspace

variable {α : Type} [Scalar α] {f g : Formula α}

/-- **The constraint between two operands** takes the next number and the priority asked for. -/
theorem relate_of_ok (w : Workspace α γ) (r : Relation) (p : Option Priority) {a b : Operand α}
    (hf : f.linearize = .ok a) (hg : g.linearize = .ok b) :
    ∃ c : Constraint α, c.id = ⟨w.next⟩ ∧ c.expression = a.difference b ∧ c.relation = r ∧
      c.priority = p.getD .required ∧
      w.relate f r g p =
        .ok ({ w with next := w.next + 1, constraints := w.constraints ++ [c] }, c) := by
  rw [relate, hf, hg]
  cases p <;> exact ⟨_, rfl, rfl, rfl, rfl, rfl⟩

/-- There is none just if one of the two is not linear; the left one is asked first. -/
theorem relate_eq_error_iff (w : Workspace α γ) (r : Relation) (p : Option Priority)
    {e : ExpressionError} : w.relate f r g p = .error e ↔
      f.linearize = .error e ∨ (∃ a, f.linearize = .ok a) ∧ g.linearize = .error e := by
  cases hf : f.linearize with
  | error first =>
    have hrelate : w.relate f r g p = .error first := by
      rw [relate, hf]
      rfl
    simp [hrelate]
  | ok a =>
    cases hg : g.linearize with
    | error second =>
      have hrelate : w.relate f r g p = .error second := by
        rw [relate, hf, hg]
        rfl
      simp [hrelate]
    | ok b =>
      obtain ⟨c, -, -, -, -, hrelate⟩ := w.relate_of_ok r p hf hg
      simp [hrelate]

end Workspace

variable {space : Space ℚ γ} {ρ : Variable → ℚ} {f g : Formula ℚ}

/-- **A tree means what is written**, in a space that holds its variables.  Linearizing has the error
of the tree, and else an operand with its value; and a relation between two trees becomes a
constraint whose expression stands to zero as the trees stand to each other, or the first error of
the two. -/
theorem Formula.linearize_evaluates
    (h : ∀ v ∈ f.vars ++ g.vars, space.value? v = some (ρ v)) (w : Workspace ℚ γ) (r : Relation)
    (p : Option Priority) :
    (∀ e, f.linearize = .error e ↔ f.evaluate ρ = .error e) ∧
    (∀ x, f.evaluate ρ = .ok x → ∃ a, f.linearize = .ok a ∧ a.value? space = some x ∧
      a.toExpression.value? space = some x) ∧
    (∀ e, w.relate f r g p = .error e ↔
      f.evaluate ρ = .error e ∨ (∃ x, f.evaluate ρ = .ok x) ∧ g.evaluate ρ = .error e) ∧
    ∀ x y, f.evaluate ρ = .ok x → g.evaluate ρ = .ok y →
      ∃ c z, w.relate f r g p =
          .ok ({ w with next := w.next + 1, constraints := w.constraints ++ [c] }, c) ∧
        c.id = ⟨w.next⟩ ∧ c.relation = r ∧ c.priority = p.getD .required ∧
        c.expression.value? space = some z ∧ (r.Holds z 0 ↔ r.Holds x y) := by
  refine ⟨fun e => linearize_eq_error_iff ρ, fun x hx => ?_, fun e => ?_, fun x y hx hy => ?_⟩
  · obtain ⟨a, hlin, rfl, hvars⟩ := exists_linearize hx
    have hspace : ∀ v ∈ a.vars, space.value? v = some (ρ v) := fun v hv =>
      h v (List.mem_append_left _ (hvars ▸ hv))
    refine ⟨a, hlin, a.value?_eq_valueAt hspace, ?_⟩
    rw [← a.valueAt_toExpression]
    refine (Operand.expression a.toExpression).value?_eq_valueAt fun v hv => hspace v ?_
    rwa [← a.vars_toExpression]
  · rw [w.relate_eq_error_iff r p, linearize_eq_error_iff ρ, linearize_eq_error_iff ρ]
    refine or_congr_right (and_congr_left fun _ => ⟨fun ⟨a, ha⟩ => ?_, fun ⟨x, hx⟩ => ?_⟩)
    · cases f.linearized ρ with
      | error e hlin _ =>
        rw [hlin] at ha
        cases ha
      | ok a _ heval _ => exact ⟨_, heval⟩
    · obtain ⟨a, hlin, -⟩ := exists_linearize hx
      exact ⟨a, hlin⟩
  · obtain ⟨a, hfl, rfl, hfv⟩ := exists_linearize hx
    obtain ⟨b, hgl, rfl, hgv⟩ := exists_linearize hy
    obtain ⟨c, hid, hexpr, hrel, hprio, hrelate⟩ := w.relate_of_ok r p hfl hgl
    refine ⟨c, a.valueAt ρ - b.valueAt ρ, hrelate, hid, hrel, hprio, ?_, r.holds_sub_zero _ _⟩
    rw [hexpr, ← a.valueAt_difference b]
    refine (Operand.expression (a.difference b)).value?_eq_valueAt fun v hv => h v ?_
    rw [← hfv, ← hgv, ← a.vars_difference b]
    exact hv

end Space

/-! In a space with `v` at 3 and `w` at 5: the trees `(2 - v) * (4 / 2) + w` and `w`, and one with two
faults, `v * (w / 0)`. -/

def threeAndFive : Space ℚ Unit := ⟨[{ value := 3 }, { value := 5 }]⟩

def threeAndFiveAt (v : Variable) : ℚ := if v = ⟨0⟩ then 3 else 5

def linearTree : Formula ℚ :=
  .sum (.product (.difference (.operand (.constant 2)) (.operand (.ofVariable ⟨0⟩)))
    (.quotient (.operand (.constant 4)) (.operand (.expression ⟨[], 2⟩))))
    (.operand (.ofVariable ⟨1⟩))

def variableTree : Formula ℚ := .operand (.ofVariable ⟨1⟩)

def faultyTree : Formula ℚ :=
  .product (.operand (.ofVariable ⟨0⟩))
    (.quotient (.operand (.ofVariable ⟨1⟩)) (.operand (.constant 0)))

/-- The first tree is 3 there, and `(2 - v) * (4 / 2) + w <= w`, which holds, is a constraint whose
expression is -2; the second tree divides by zero before it multiplies. -/
theorem linearTree_evaluates :
    (∀ v ∈ linearTree.vars ++ variableTree.vars,
      threeAndFive.value? v = some (threeAndFiveAt v)) ∧
    linearTree.evaluate threeAndFiveAt = .ok 3 ∧
    (∃ a, linearTree.linearize = .ok a ∧ a.value? threeAndFive = some 3) ∧
    (∃ w c z, (.new : Workspace ℚ Unit).relate linearTree .atMost variableTree none = .ok (w, c) ∧
      c.relation = .atMost ∧ c.expression.value? threeAndFive = some z ∧ z ≤ 0) ∧
    faultyTree.linearize = .error .divisionByZero := by
  have hspace : ∀ v ∈ linearTree.vars ++ variableTree.vars,
      threeAndFive.value? v = some (threeAndFiveAt v) := by decide +kernel
  have hleft : linearTree.evaluate threeAndFiveAt = .ok 3 := by decide +kernel
  have hright : variableTree.evaluate threeAndFiveAt = .ok 5 := by
    decide +kernel
  have hfaulty : faultyTree.evaluate threeAndFiveAt = .error .divisionByZero := by decide +kernel
  obtain ⟨-, hvalue, -, hrelate⟩ :=
    Formula.linearize_evaluates hspace (.new : Workspace ℚ Unit) .atMost none
  obtain ⟨a, hlin, ha, -⟩ := hvalue 3 hleft
  obtain ⟨c, z, hmade, -, hrel, -, hz, hholds⟩ := hrelate 3 5 hleft hright
  have hfaultySpace : ∀ v ∈ faultyTree.vars ++ faultyTree.vars,
      threeAndFive.value? v = some (threeAndFiveAt v) := by decide +kernel
  exact ⟨hspace, hleft, ⟨a, hlin, ha⟩, ⟨_, c, z, hmade, hrel, hz, hholds.mpr (by decide +kernel)⟩,
    ((Formula.linearize_evaluates hfaultySpace (.new : Workspace ℚ Unit) .equal none).1 _).mpr
      hfaulty⟩

end IncrementalSimplex
